import ScriptCore.Proofs.Base64Calls

set_option relaxedAutoImplicit false
set_option autoImplicit false

/-!
# The map of the decoder is built

The map has the characters of the alphabet as its keys, each with its position. The positions are counted from
one and made smaller by one at run time, which is exact for numbers as small as these.

## Main definitions

* `ScriptCore.Base64.filled` — a table with characters and their positions written to it.

## Main results

* `ScriptCore.Base64.get_filled_codes` — characters are found with their positions.
* `ScriptCore.Base64.gives_fillMap` — the map is built.
-/

namespace ScriptCore.Base64

open Routine

/-- A table with characters and their positions written to it, the first of which is `i`. -/
def filled : Table → ℕ → List UInt8 → Table
  | T, _, [] => T
  | T, i, c :: cs => filled (T.set (key c) (position i)) (i + 1) cs

/-! ## Characters as keys -/

lemma number?_normalizeKey : ∀ n < 256, ((Value.number (Binary64.ofNat n)).normalizeKey.number?.map
    Binary64.truncate) = some (n : ℤ) := by decide +kernel

lemma isKey_ofNat : ∀ n < 256, State.isKey (.number (Binary64.ofNat n)) = true := by decide +kernel

/-- Characters are told apart as keys. -/
lemma normalizeKey_inj {c d : UInt8} (h : (key c).normalizeKey = (key d).normalizeKey) : c = d := by
  have hc := number?_normalizeKey c.toNat c.toNat_lt
  have hd := number?_normalizeKey d.toNat d.toNat_lt
  rw [key, key] at h
  rw [h, hd, Option.some.injEq, Nat.cast_inj] at hc
  exact UInt8.toNat_inj.1 hc.symm

/-- What is read behind writing a character with a position. -/
lemma get_set_key (T : Table) (c d : UInt8) {i : ℕ} (hi : i < 65) :
    (T.set (key c) (position i)).get (key d) = if c = d then position i else T.get (key d) := by
  rw [Table.get_set, position, isNil_number (isNaN_ofNat i hi)]
  by_cases hcd : c = d
  · rw [if_pos hcd, if_pos (congrArg (fun c => (key c).normalizeKey) hcd)]
    rfl
  · rw [if_neg hcd, if_neg fun h => hcd (normalizeKey_inj h)]

/-- A character that is not among those written has the value it had. -/
lemma get_filled_of_notMem {cs : List UInt8} {d : UInt8} (hd : d ∉ cs) (T : Table) {i : ℕ}
    (hi : i + cs.length ≤ 65) : (filled T i cs).get (key d) = T.get (key d) := by
  induction cs generalizing T i with
  | nil => rfl
  | cons c cs ih =>
    obtain ⟨hne, hcs⟩ := not_or.1 fun h => hd (List.mem_cons.2 h)
    rw [List.length_cons] at hi
    rw [filled, ih hcs _ (by omega), get_set_key T c d (by omega), if_neg (Ne.symm hne)]

/-- **A character is found with its position**, if no other one is the same. -/
theorem get_filled {cs : List UInt8} (hcs : cs.Nodup) {n : ℕ} {d : UInt8} (hn : cs[n]? = some d) (T : Table)
    {i : ℕ} (hi : i + cs.length ≤ 65) : (filled T i cs).get (key d) = position (i + n) := by
  induction cs generalizing T i n with
  | nil => cases hn
  | cons c cs ih =>
    obtain ⟨hc, hcs⟩ := List.nodup_cons.1 hcs
    rw [List.length_cons] at hi
    rw [filled]
    cases n with
    | zero =>
      obtain rfl : c = d := Option.some.inj hn
      rw [get_filled_of_notMem hc _ (by omega), get_set_key T c c (by omega), if_pos rfl, Nat.add_zero]
    | succ n =>
      rw [ih hcs hn _ (by omega), Nat.add_assoc, Nat.add_comm 1]

lemma length_codes_le : 0 + codes.length ≤ 65 := by decide +kernel

/-- **What the finished map has for a character.** -/
theorem get_filled_codes (c : UInt8) :
    (filled .empty 0 codes).get (key c) = if c ∈ codes then position (codes.idxOf c) else .nil := by
  split
  · next hc =>
    have hfound := get_filled codes_nodup (List.getElem?_idxOf hc) .empty length_codes_le
    rwa [Nat.zero_add] at hfound
  · next hc =>
    rw [get_filled_of_notMem hc _ length_codes_le]
    exact Std.HashMap.getD_empty

/-! ## Building the map -/

section Fill

variable {σ : Type} {enter : HostProgram σ → MachineM σ Nat} {m : Machine σ}

lemma sub_one : ∀ i < 65, ArithOp.sub.apply (Binary64.ofNat (i + 1)) Binary64.one = Binary64.ofNat i := by
  decide +kernel

lemma isNaN_succ : ∀ i < 65, (Binary64.ofNat (i + 1)).isNaN = false := by decide +kernel

/-- Numbers are counted down by one. -/
lemma ends_sub_one {i : ℕ} (hi : i < 65) :
    Ends enter (invoke (.arith .sub (position (i + 1)) (.number Binary64.one))) m (.ok (position i)) m := by
  have hcoerce {x : Binary64} (hx : x.isNaN = false) : m.state.coerceNumber (.number x) = some x := by
    rw [State.coerceNumber, Value.number?_number hx]
    rfl
  refine ends_invoke ?_
  rw [MachineM.invoke, MachineM.arith_apply, State.arithPlan, position, hcoerce (isNaN_succ i hi),
    hcoerce (by decide +kernel)]
  dsimp only
  rw [sub_one i hi]
  rfl

variable {s : State} {h : Heap} {l : List Value} {t : ℕ}

/-- **The map is built** in a table. -/
theorem gives_fillMap {map : Value} (hb : s.Became h l m.state) (hmap : map.table? = some t)
    (ht : t < h.tables.items.size) (cs : List UInt8) {i : ℕ} (hi : i + cs.length ≤ 65) :
    Gives enter (fillMap map i cs) m s () { h with tables := h.tables.modify t (filled · i cs) } l := by
  induction cs generalizing m h i with
  | nil =>
    have hid : h.tables.modify t (filled · i []) = h.tables := by
      have hid : (fun T => filled T i []) = id := rfl
      rw [hid, Arena.modify_id]
    rw [hid]
    exact gives_of_ends hb (ends_pure _)
  | cons c cs ih =>
    rw [List.length_cons] at hi
    refine .bind_of_ends (ends_sub_one (by omega)) ?_
    refine (gives_rawSet hb (isKey_ofNat _ c.toNat_lt) hmap ht).bind fun u hbu => ?_
    have hsize : t < (h.tables.modify t (·.set (key c) (position i))).items.size := by
      rwa [Arena.size_modify]
    have hrest := ih (m := m.withState u) (i := i + 1) hbu hsize (by omega)
    rwa [Arena.modify_modify] at hrest

lemma settles_fillMap (map : Value) (cs : List UInt8) (i : ℕ) : Settles enter (fillMap map i cs) := by
  induction cs generalizing i with
  | nil => exact settles_pure _
  | cons c cs ih => exact (settles_invoke _).bind fun _ => (settles_ask _).bind fun _ => ih (i + 1)

end Fill

end ScriptCore.Base64
