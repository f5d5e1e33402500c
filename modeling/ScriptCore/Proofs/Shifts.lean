import Mathlib
import ScriptCore.Library.Bit32

set_option relaxedAutoImplicit false
set_option autoImplicit false

/-!
# Shifts are integer arithmetic

The machine shifts words by amounts from zero to 31 only, and the shifts of the library are made of these. They take
every amount of 64 bits, and for each of them they are multiplication or division by a power of two. The amounts
outside of the machine's range are caught before a shift is made, so no shift is left without a result.

## Main definitions

* `ScriptCore.Bit32.shifted` — a shift to either side, as arithmetic.
* `ScriptCore.Bit32.signed`, `ScriptCore.Bit32.signShifted` — the number of a word whose top bit is a sign, and its
  shift.

## Main results

* `ScriptCore.Bit32.map_toNat_shift?` — the logical shift.
* `ScriptCore.Bit32.shifts_exact` — all shifts.
-/

namespace ScriptCore.Bit32

/-- The number `r` shifted by `n` places within words: multiplied by a power of two, or divided by one and rounded
down for a negative `n`. -/
def shifted (r : ℕ) (n : ℤ) : ℕ :=
  if 0 ≤ n then r * 2 ^ n.toNat % 2 ^ 32 else r / 2 ^ (-n).toNat

/-- The number of a word whose top bit is a sign, in two's complement. -/
def signed (r : UInt32) : ℤ :=
  if r.toNat < 2 ^ 31 then r.toNat else r.toNat - 2 ^ 32

/-- The signed number of a word shifted to the right by `n` places and rounded down, as the number of the word that
stands for it in two's complement. To the left the sign is shifted like all bits. -/
def signShifted (r : UInt32) (n : ℤ) : ℤ :=
  if 0 ≤ n then signed r / 2 ^ n.toNat % 2 ^ 32 else shifted r.toNat (-n)

/-! ## Shifts as arithmetic -/

lemma shifted_of_nonneg {n : ℤ} (r : ℕ) (h : 0 ≤ n) : shifted r n = r * 2 ^ n.toNat % 2 ^ 32 := if_pos h

lemma shifted_of_neg {n : ℤ} (r : ℕ) (h : n < 0) : shifted r n = r / 2 ^ (-n).toNat := if_neg (by omega)

/-- To the right, also by no places. -/
lemma shifted_of_nonpos {n : ℤ} {r : ℕ} (hr : r < 2 ^ 32) (h : n ≤ 0) : shifted r n = r / 2 ^ (-n).toNat := by
  obtain rfl | h := Int.le_iff_eq_or_lt.mp h
  · rw [shifted_of_nonneg r le_rfl]
    simpa using Nat.mod_eq_of_lt hr
  · exact shifted_of_neg r h

/-- Far to either side all bits are moved out. -/
lemma shifted_of_wide {n : ℤ} {r : ℕ} (hr : r < 2 ^ 32) (h : 32 ≤ n.natAbs) : shifted r n = 0 := by
  by_cases hn : 0 ≤ n
  · have hdvd : 2 ^ 32 ∣ r * 2 ^ n.toNat := Dvd.dvd.mul_left (pow_dvd_pow 2 (by omega)) r
    rw [shifted_of_nonneg r hn, Nat.mod_eq_zero_of_dvd hdvd]
  · have hle : 2 ^ 32 ≤ 2 ^ (-n).toNat := Nat.pow_le_pow_right Nat.two_pos (by omega)
    rw [shifted_of_neg r (by omega), Nat.div_eq_of_lt (by omega)]

/-! ## Shifts of the machine -/

section Machine

variable {i : Int64}

lemma map_toNat_shiftLeft? (r : UInt32) (h₀ : 0 ≤ i.toInt) (h : i.toInt < 32) :
    (shiftLeft? r i).map UInt32.toNat = some (r.toNat * 2 ^ i.toInt.toNat % 2 ^ 32) := by
  have hamount : i.toInt.toNat % 2 ^ 32 % 32 = i.toInt.toNat := by omega
  rw [shiftLeft?, if_pos ⟨h₀, h⟩, Option.map_some, UInt32.toNat_shiftLeft, UInt32.toNat_ofNat', hamount,
    Nat.shiftLeft_eq]

lemma map_toNat_shiftRight? (r : UInt32) (h₀ : 0 ≤ i.toInt) (h : i.toInt < 32) :
    (shiftRight? r i).map UInt32.toNat = some (r.toNat / 2 ^ i.toInt.toNat) := by
  have hamount : i.toInt.toNat % 2 ^ 32 % 32 = i.toInt.toNat := by omega
  rw [shiftRight?, if_pos ⟨h₀, h⟩, Option.map_some, UInt32.toNat_shiftRight, UInt32.toNat_ofNat', hamount,
    Nat.shiftRight_eq_div_pow]

end Machine

/-! ## Opposite amounts -/

lemma toInt_neg_of_ne {i : Int64} (h : i ≠ Int64.minValue) : (-i).toInt = -i.toInt := by
  have hne : i.toInt ≠ -2 ^ 63 := fun heq => h (Int64.toInt_inj.mp (heq.trans Int64.toInt_minValue.symm))
  have hlow : -2 ^ 63 ≤ i.toInt := Int64.le_toInt i
  have hhigh : i.toInt < 2 ^ 63 := Int64.toInt_lt i
  rw [Int64.toInt_neg, Int.bmod_eq_of_le (by omega) (by omega)]

/-- The opposite amount. The smallest amount has the largest one for it, which moves all bits out as well. -/
lemma shifted_opposite (r : UInt32) (i : Int64) : shifted r.toNat (opposite i).toInt = shifted r.toNat (-i.toInt) := by
  by_cases h : i = Int64.minValue
  · subst h
    rw [shifted_of_wide r.toNat_lt (by decide), shifted_of_wide r.toNat_lt (by decide)]
  · rw [opposite, opposite?, if_neg h, Option.getD_some, toInt_neg_of_ne h]

/-! ## Shifts of the library -/

/-- **The logical shift has a result for every amount, and it is the arithmetic one.** -/
theorem map_toNat_shift? (r : UInt32) (i : Int64) :
    (shift? r i).map UInt32.toNat = some (shifted r.toNat i.toInt) := by
  unfold shift?
  split_ifs with hwide hneg
  · rw [shifted_of_wide r.toNat_lt hwide]
    rfl
  · rw [Int64.lt_iff_toInt_lt, Int64.toInt_zero] at hneg
    have hne : i ≠ Int64.minValue := by
      rintro rfl
      exact hwide (by decide)
    have hopposite : (-i).toInt = -i.toInt := toInt_neg_of_ne hne
    simp only [wordBits] at hwide
    rw [opposite?, if_neg hne, shifted_of_neg _ hneg, ← hopposite]
    exact map_toNat_shiftRight? r (by omega) (by omega)
  · rw [Int64.lt_iff_toInt_lt, Int64.toInt_zero] at hneg
    simp only [wordBits] at hwide
    rw [shifted_of_nonneg _ (by omega)]
    exact map_toNat_shiftLeft? r (by omega) (by omega)

/-- The shift to the right is the one to the left by the opposite integer, which an amount need not have. -/
lemma map_toNat_rshift? (r : UInt32) (i : Int64) :
    (rshift? r i).map UInt32.toNat = some (shifted r.toNat (-i.toInt)) := by
  rw [rshift?, map_toNat_shift?, shifted_opposite]

/-! ### The sign kept -/

/-- The top bit of a word is its sign. -/
lemma and_topBit_eq_zero_iff (r : UInt32) : r &&& topBit = 0 ↔ r.toNat < 2 ^ 31 := by
  have hlt : r.toNat < 2 ^ 32 := r.toNat_lt
  have hand : (r &&& topBit).toNat = (r.toNat.testBit 31).toNat * 2 ^ 31 := by
    rw [UInt32.toNat_and]
    exact Nat.and_two_pow r.toNat 31
  rw [← UInt32.toNat_inj, hand, Nat.toNat_testBit, UInt32.toNat_zero]
  omega

/-- A word of `m` bits, with all bits above them set. -/
lemma toNat_or_not {s t : UInt32} {m : ℕ} (hm : m ≤ 32) (ht : t.toNat = 2 ^ m - 1) (hs : s.toNat < 2 ^ m) :
    (s ||| ~~~t).toNat = 2 ^ 32 - 2 ^ m + s.toNat := by
  have hupper : 2 ^ 32 - 1 - (2 ^ m - 1) = 2 ^ m * (2 ^ (32 - m) - 1) := by
    rw [Nat.mul_sub, ← Nat.pow_add, Nat.add_sub_cancel' hm]
    have hpos : 0 < 2 ^ m := Nat.two_pow_pos m
    omega
  have hpow : 2 ^ m * (2 ^ (32 - m) - 1) = 2 ^ 32 - 2 ^ m := by
    rw [Nat.mul_sub, ← Nat.pow_add, Nat.add_sub_cancel' hm, Nat.mul_one]
  rw [UInt32.toNat_or, UInt32.toNat_not, ht, Nat.or_comm]
  show (2 ^ 32 - 1 - (2 ^ m - 1)) ||| s.toNat = _
  rw [hupper, ← Nat.two_pow_add_eq_or_of_lt hs, hpow]

/-- The places that a shift to the right leaves. -/
lemma toNat_div_lt (r : UInt32) {n : ℕ} (hn : n ≤ 32) : r.toNat / 2 ^ n < 2 ^ (32 - n) := by
  apply Nat.div_lt_of_lt_mul
  rw [← Nat.pow_add, Nat.add_sub_cancel' hn]
  exact r.toNat_lt

lemma toNat_allOnes_div {n : ℕ} (hn : n ≤ 32) : allOnes.toNat / 2 ^ n = 2 ^ (32 - n) - 1 := by
  have hsplit : 2 ^ 32 = 2 ^ n * 2 ^ (32 - n) := by rw [← Nat.pow_add, Nat.add_sub_cancel' hn]
  rw [show allOnes.toNat = 2 ^ n * 2 ^ (32 - n) - 1 from hsplit ▸ rfl]
  simpa using Nat.mul_sub_div 0 (2 ^ n) (2 ^ (32 - n)) (by positivity)

/-- A negative number divided as its word is: the places that become free are set. -/
lemma signed_ediv {r : UInt32} (hr : 2 ^ 31 ≤ r.toNat) {n : ℕ} (hn : n < 32) :
    signed r / 2 ^ n % 2 ^ 32 = (2 ^ 32 - 2 ^ (32 - n) + r.toNat / 2 ^ n : ℕ) := by
  have hlt : r.toNat < 2 ^ 32 := r.toNat_lt
  have hsplit : 2 ^ 32 = 2 ^ (32 - n) * 2 ^ n := by rw [← Nat.pow_add, Nat.sub_add_cancel hn.le]
  have hle : 2 ^ (32 - n) ≤ 2 ^ 32 := Nat.pow_le_pow_right Nat.two_pos (by omega)
  have hquot : r.toNat / 2 ^ n < 2 ^ (32 - n) := toNat_div_lt r hn.le
  have hdiv : signed r / 2 ^ n = ((r.toNat / 2 ^ n : ℕ) : ℤ) - (2 ^ (32 - n) : ℕ) := by
    have hmul : signed r = r.toNat - (2 ^ (32 - n) : ℕ) * 2 ^ n := by
      rw [signed, if_neg (by omega)]
      exact_mod_cast congrArg (fun k : ℕ => (r.toNat : ℤ) - k) hsplit
    rw [hmul, Int.sub_mul_ediv_right _ _ (by positivity)]
    push_cast
    rfl
  rw [hdiv]
  generalize 2 ^ (32 - n) = p at *
  generalize r.toNat / 2 ^ n = q at *
  omega

/-- A negative word moved to the right, with its sign kept, is its number divided and rounded down. -/
lemma map_toNat_arshift?_of_negative {r : UInt32} {i : Int64} (hr : 2 ^ 31 ≤ r.toNat) (hi : 0 ≤ i.toInt) :
    (arshift? r i).map (fun w => (w.toNat : ℤ)) = some (signed r / 2 ^ i.toInt.toNat % 2 ^ 32) := by
  have hneg : ¬(i < 0 ∨ r &&& topBit = 0) := by
    rw [and_topBit_eq_zero_iff, Int64.lt_iff_toInt_lt, Int64.toInt_zero]
    omega
  rw [arshift?, if_neg hneg]
  by_cases hwide : 32 ≤ i.toInt
  · -- all places become free, and the quotient of a small negative number is rounded down to minus one
    have hlt : r.toNat < 2 ^ 32 := r.toNat_lt
    have hpow : (2 : ℤ) ^ 32 ≤ 2 ^ i.toInt.toNat := pow_le_pow_right₀ (by norm_num) (by omega)
    have hdiv : signed r / 2 ^ i.toInt.toNat = -1 := by
      rw [signed, if_neg (by omega), Int.ediv_eq_iff_of_pos (by positivity)]
      omega
    rw [if_pos (show (wordBits : ℤ) ≤ i.toInt from hwide), hdiv]
    rfl
  · obtain ⟨s, hs, hsval⟩ := Option.map_eq_some_iff.mp (map_toNat_shiftRight? r hi (by omega))
    obtain ⟨t, ht, htval⟩ := Option.map_eq_some_iff.mp (map_toNat_shiftRight? allOnes hi (by omega))
    have hones : t.toNat = 2 ^ (32 - i.toInt.toNat) - 1 := by
      rw [htval]
      exact toNat_allOnes_div (by omega)
    rw [if_neg (show ¬(wordBits : ℤ) ≤ i.toInt from hwide), hs, ht, signed_ediv hr (by omega)]
    have hlt : s.toNat < 2 ^ (32 - i.toInt.toNat) := by
      rw [hsval]
      exact toNat_div_lt r (by omega)
    exact congrArg (fun n : ℕ => some (n : ℤ)) ((toNat_or_not (by omega) hones hlt).trans (by rw [hsval]))

/-- A word without a sign needs no reduction. -/
lemma signShifted_of_nonneg {r : UInt32} {n : ℤ} (hr : r.toNat < 2 ^ 31) (hn : 0 ≤ n) :
    signShifted r n = shifted r.toNat (-n) := by
  have hle : r.toNat / 2 ^ n.toNat ≤ r.toNat := Nat.div_le_self _ _
  rw [signShifted, if_pos hn, signed, if_pos hr, shifted_of_nonpos r.toNat_lt (by omega), Int.neg_neg]
  exact_mod_cast Nat.mod_eq_of_lt (by omega)

/-- The shift to the right with the sign kept. -/
lemma map_toNat_arshift? (r : UInt32) (i : Int64) :
    (arshift? r i).map (fun w => (w.toNat : ℤ)) = some (signShifted r i.toInt) := by
  have hlogical : (rshift? r i).map (fun w => (w.toNat : ℤ)) = some ((shifted r.toNat (-i.toInt) : ℕ) : ℤ) := by
    simpa using congrArg (Option.map ((↑) : ℕ → ℤ)) (map_toNat_rshift? r i)
  by_cases hi : 0 ≤ i.toInt
  · by_cases hr : r.toNat < 2 ^ 31
    · rw [arshift?, if_pos (.inr ((and_topBit_eq_zero_iff r).mpr hr)), signShifted_of_nonneg hr hi, hlogical]
    · rw [signShifted, if_pos hi]
      exact map_toNat_arshift?_of_negative (by omega) hi
  · have hneg : i < 0 := by
      rw [Int64.lt_iff_toInt_lt, Int64.toInt_zero]
      omega
    rw [arshift?, if_pos (.inl hneg), signShifted, if_neg hi, hlogical]

/-- **Shifts are exact for every amount.** A shift to the left by `i` places multiplies the number of the word by
`2 ^ i` modulo `2 ^ 32`, or it divides it and rounds down where `i` is negative. A shift to the right is the one to
the left by the opposite integer, for the smallest amount as well, which has no opposite one. With the sign kept the
signed number is divided and rounded down, and the result is written in two's complement. Every shift has a result,
so the machine is never told to shift by an amount outside of its range, and the shifts by integers that the library
registers agree with these.

**Proof sketch.** Amounts from 32 on and their opposites move all bits out, also in the arithmetic. Within the range
each shift is one of the machine, or two of them that are joined: the places that become free are those that the
shifted word of ones has lost. -/
theorem shifts_exact (r : UInt32) (i : Int64) :
    (lshift? r i).map UInt32.toNat = some (shifted r.toNat i.toInt) ∧
    (rshift? r i).map UInt32.toNat = some (shifted r.toNat (-i.toInt)) ∧
    (arshift? r i).map (fun w => (w.toNat : ℤ)) = some (signShifted r i.toInt) ∧
    lshift? r i = some (lshift r i.toInt) ∧ rshift? r i = some (rshift r i.toInt) ∧
    arshift? r i = some (arshift r i.toInt) := by
  have hleft := map_toNat_shift? r i
  have hright := map_toNat_rshift? r i
  have hsigned := map_toNat_arshift? r i
  refine ⟨hleft, hright, hsigned, ?_, ?_, ?_⟩
  · obtain ⟨w, hw, -⟩ := Option.map_eq_some_iff.mp hleft
    rw [lshift, Int64.ofInt_toInt, lshift?, hw, Option.getD_some]
  · obtain ⟨w, hw, -⟩ := Option.map_eq_some_iff.mp hright
    rw [rshift, Int64.ofInt_toInt, hw, Option.getD_some]
  · obtain ⟨w, hw, -⟩ := Option.map_eq_some_iff.mp hsigned
    rw [arshift, Int64.ofInt_toInt, hw, Option.getD_some]

end ScriptCore.Bit32
