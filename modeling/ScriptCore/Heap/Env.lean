import ScriptCore.Value

set_option autoImplicit false

/-!
# Closure environments

An environment holds the variables that functions have captured. Slot `0` links to the environment
around it, or is nil at the outermost one; the variables are in the slots behind it.

## Main definitions

* `ScriptCore.Env`, with `parent?`, `get` and `set`.

## Main results

* `ScriptCore.Env.get_set` — reading after writing.
-/

namespace ScriptCore

/-- The slots of a closure environment. -/
structure Env where
  slots : Array Value

namespace Env

/-- The environment with the given parent and no variables. -/
def new (parent : Option Nat) : Env :=
  ⟨#[match parent with
    | some h => .env h
    | none => .nil]⟩

/-- The handle of the environment around this one. -/
def parent? (e : Env) : Option Nat := e.slots[0]?.bind Value.env?

/-- The value of a slot; slots never written are nil. -/
def get (e : Env) (slot : Nat) : Value := e.slots.getD slot .nil

/-- The parent is what slot `0` holds. -/
theorem parent?_eq (e : Env) : e.parent? = (e.get 0).env? := by
  rw [parent?, get, Array.getD_eq_getD_getElem?]
  rcases e.slots[0]? with _ | v
  · have hnil : Value.nil.env? = none := by decide
    exact hnil.symm
  · rfl

/-- Sets a slot, after nil slots up to it if needed. -/
def set (e : Env) (slot : Nat) (value : Value) : Env :=
  let padded := e.slots ++ Array.replicate (slot + 1 - e.slots.size) Value.nil
  ⟨padded.setIfInBounds slot value⟩

/-- A slot holds what was written to it last; padding shows as the nil that was read there
before. -/
theorem get_set (e : Env) (i j : Nat) (v : Value) :
    (e.set i v).get j = if i = j then v else e.get j := by
  have hpad : ∀ k, (e.slots ++ Array.replicate (i + 1 - e.slots.size) Value.nil).getD k .nil =
      e.get k := by
    intro k
    unfold get
    by_cases hk : k < e.slots.size
    · simp [Array.getD_eq_getD_getElem?, Array.getElem?_append_left hk]
    · have hnone : e.slots[k]? = none := Array.getElem?_eq_none (by omega)
      rw [Array.getD_eq_getD_getElem?, Array.getElem?_append_right (by omega),
        Array.getElem?_replicate, Array.getD_eq_getD_getElem?, hnone]
      split <;> rfl
  by_cases hij : i = j
  · subst hij
    rw [if_pos rfl]
    simp only [set, get, Array.getD_eq_getD_getElem?]
    rw [Array.getElem?_setIfInBounds_self_of_lt]
    · rfl
    · simp; omega
  · rw [if_neg hij, ← hpad j]
    simp only [set, get, Array.getD_eq_getD_getElem?]
    rw [Array.getElem?_setIfInBounds_ne hij]

end Env

end ScriptCore
