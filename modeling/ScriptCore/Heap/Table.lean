import Std.Data.HashMap
import ScriptCore.Value

set_option autoImplicit false

/-!
# Tables

A table maps keys to values. A key that is a number stands for that number with either sign of
zero, and a key without an entry has the value nil.

## Main definitions

* `ScriptCore.Table`, with `get`, `set` and `border`.

## Main results

* `ScriptCore.Table.get_set` — reading after writing.
-/

namespace ScriptCore

/-- The entries of a table, none of which is nil, and the handle of its metatable. -/
structure Table where
  entries : Std.HashMap Value Value
  metatable : Option Nat

namespace Table

/-- No entry and no metatable. -/
def empty : Table := ⟨∅, none⟩

/-- The value of a key. -/
def get (t : Table) (key : Value) : Value := t.entries.getD key.normalizeKey .nil

/-- Sets the value of a key; nil removes the entry. -/
def set (t : Table) (key value : Value) : Table :=
  if value.isNil then { t with entries := t.entries.erase key.normalizeKey }
  else { t with entries := t.entries.insert key.normalizeKey value }

/-- A key has the value it was given last, where keys are told apart by what they stand for. -/
theorem get_set (t : Table) (key key' value : Value) :
    (t.set key value).get key' =
      if key.normalizeKey = key'.normalizeKey then (if value.isNil then .nil else value)
      else t.get key' := by
  unfold set get
  split
  · simp only [Std.HashMap.getD_erase, beq_iff_eq]
  · simp only [Std.HashMap.getD_insert, beq_iff_eq]

/-- Whether the number `n` has an entry. -/
def hasIndex (t : Table) (n : Nat) : Bool := t.entries.contains (.number (Binary64.ofNat n))

/-- The number of the consecutive entries behind `n`, at most `fuel` of which are looked at, added
to `n`. -/
def borderFrom (t : Table) : Nat → Nat → Nat
  | 0, n => n
  | fuel + 1, n => if t.hasIndex (n + 1) then t.borderFrom fuel (n + 1) else n

/-- The largest `n` such that all of `1` to `n` have an entry. No more of them can have one than
there are entries. -/
def border (t : Table) : Nat := t.borderFrom t.entries.size 0

/-- The values a table refers to: its keys, their values and its metatable. -/
def references (t : Table) : List Value :=
  t.entries.toList.flatMap (fun (k, v) => [k, v]) ++ (t.metatable.map Value.table).toList

end Table

end ScriptCore
