import Mathlib
import ScriptCore.Library.Bit32
import ScriptCore.Proofs.RoundedSums

set_option relaxedAutoImplicit false
set_option autoImplicit false

/-!
# The words of numbers

Each number has a word: its integer part, modulo the number of words. It is computed with numbers only, by a remainder,
by adding the number of words to a negative one, and by cutting the sum to a word, and none of these steps rounds.

## Main results

* `ScriptCore.Bit32.remEuclid_wordCount` — the remainder that is not negative, of integers.
* `ScriptCore.Bit32.toUnsigned_exact` — the words of all numbers.
-/

namespace ScriptCore.Bit32

open Binary64

/-! ## The number of words -/

lemma isFinite_wordCount : wordCount.isFinite = true := by decide

lemma absRat_wordCount : wordCount.absRat = 2 ^ 32 := by
  have hsignificand : wordCount.significand = 2 ^ 52 := by decide
  have hscale : wordCount.scale = -20 := by decide
  rw [absRat, hsignificand, hscale]
  norm_num

lemma toRat_wordCount : wordCount.toRat = 2 ^ 32 := by
  have hsign : wordCount.isNegative = false := by decide
  rw [toRat_eq, hsign, absRat_wordCount]
  norm_num [signRat]

lemma abs_wordCount : wordCount.abs = wordCount := by decide

/-! ## Remainders of integers -/

section Remainders

variable {t : Binary64} {n : ℕ}

lemma toRat_rem_wordCount (ht : t.isFinite = true) (habs : t.absRat = n) :
    (t.rem wordCount).isFinite = true ∧ (t.rem wordCount).toRat = signRat t.isNegative * (n % 2 ^ 32 : ℕ) := by
  obtain ⟨hfinite, hsign, hrem⟩ := absRat_rem ht isFinite_wordCount (by decide)
  refine ⟨hfinite, ?_⟩
  have hdiv : (n : ℚ) = 2 ^ 32 * (n / 2 ^ 32 : ℕ) + (n % 2 ^ 32 : ℕ) := by exact_mod_cast (Nat.div_add_mod n _).symm
  have hfloor : ⌊(n : ℚ) / 2 ^ 32⌋₊ = n / 2 ^ 32 := by exact_mod_cast Nat.floor_div_eq_div (K := ℚ) n (2 ^ 32)
  rw [toRat_eq, hsign, hrem, habs, absRat_wordCount, hfloor]
  congr 1
  linear_combination hdiv

/-- A remainder below zero, raised by the number of words. -/
lemma add_wordCount {r : Binary64} {m : ℕ} (hr : r.isFinite = true) (h : r.toRat = -m) (hpos : 0 < m) (hm : m < 2 ^ 32) :
    (r.add wordCount).isFinite = true ∧ (r.add wordCount).toRat = (2 ^ 32 - m : ℕ) := by
  obtain ⟨z, hz, hsign, habs⟩ := exists_of_scaled false (n := 2 ^ 32 - m) (s := 0) (by omega) (by omega) (by omega)
  have hvalue : z.toRat = (2 ^ 32 - m : ℕ) := by rw [toRat_eq, hsign, habs, zpow_zero, signRat]; simp
  have hne : z.toRat ≠ 0 := by
    rw [hvalue, Nat.cast_ne_zero]
    omega
  have hadd : r.add wordCount = z := by
    apply add_eq hr isFinite_wordCount hz hne
    rw [h, toRat_wordCount, hvalue, Nat.cast_sub hm.le]
    push_cast
    ring
  rw [hadd]
  exact ⟨hz, hvalue⟩

/-- **The remainder that is not negative, of integers.** A negative remainder is raised by the number of words, and
the sum is an integer below it, which is a number. -/
theorem remEuclid_wordCount (ht : t.isFinite = true) (habs : t.absRat = n) :
    (t.remEuclid wordCount).isFinite = true ∧
    ∃ m : ℕ, (t.remEuclid wordCount).toRat = m ∧ (m : ℤ) = (if t.isNegative then -(n : ℤ) else n) % 2 ^ 32 := by
  obtain ⟨hfinite, hrem⟩ := toRat_rem_wordCount ht habs
  obtain ⟨m, hm⟩ : ∃ m, m = n % 2 ^ 32 := ⟨_, rfl⟩
  rw [← hm] at hrem
  simp only [remEuclid, abs_wordCount, lt_zero_iff hfinite]
  cases hsign : t.isNegative with
  | false =>
    have hvalue : (t.rem wordCount).toRat = m := by rw [hrem, hsign]; simp [signRat]
    have hnonneg : ¬(t.rem wordCount).toRat < 0 := by
      rw [hvalue]
      exact (Nat.cast_nonneg m).not_gt
    rw [if_neg hnonneg]
    exact ⟨hfinite, m, hvalue, by simp [hm]⟩
  | true =>
    have hvalue : (t.rem wordCount).toRat = -m := by rw [hrem, hsign]; simp [signRat]
    rcases Nat.eq_zero_or_pos m with hzero | hpos
    · -- a negative zero, which is not below zero
      have hvalue' : (t.rem wordCount).toRat = 0 := by simp [hvalue, hzero]
      rw [if_neg hvalue'.not_lt]
      refine ⟨hfinite, 0, by simpa using hvalue', ?_⟩
      simp only [if_true]
      omega
    · have hneg : (t.rem wordCount).toRat < 0 := by simpa [hvalue] using hpos
      obtain ⟨hz, hsum⟩ := add_wordCount hfinite hvalue hpos (by omega)
      rw [if_pos hneg]
      refine ⟨hz, 2 ^ 32 - m, hsum, ?_⟩
      simp only [if_true]
      omega

end Remainders

/-! ## Words -/

/-- An integer in the range of words is not cut. -/
lemma toNat_toWord {z : Binary64} {m : ℕ} (hz : z.isFinite = true) (h : z.toRat = m) (hm : m < 2 ^ 32) :
    (toWord z).toNat = m := by
  have htruncate : z.truncate = m := by
    rw [truncate_eq_towardZero hz, h, towardZero, if_pos (Nat.cast_nonneg m), Int.floor_natCast]
  have hones : (allOnes.toNat : ℤ) = 2 ^ 32 - 1 := by decide
  have hclamp : z.clamp 0 allOnes.toNat = m := by
    rw [clamp, isInfinite_of_isFinite hz, htruncate, hones]
    simp only [Bool.false_eq_true, if_false]
    omega
  rw [toWord, hclamp, Int.toNat_natCast, UInt32.toNat_ofNat', Nat.mod_eq_of_lt hm]

/-- Infinities and NaNs have no remainder. -/
lemma toUnsigned_of_not_isFinite {x : Binary64} (hx : x.isFinite = false) : toUnsigned x = 0 := by
  have hlarge : 2047 ≤ x.exponentField := by
    by_contra hlt
    rw [isFinite_iff.mpr (by simpa [specialExponent] using hlt)] at hx
    exact Bool.noConfusion hx
  have htrunc : x.trunc = x := by rw [trunc, if_neg (by omega), if_pos (by omega)]
  have hrem : x.rem wordCount = nan := by
    rcases not_isFinite_iff.mp hx with h | h <;> simp [rem, h]
  rw [toUnsigned, htrunc, remEuclid, hrem]
  decide

/-- **The word of a number is its integer part modulo `2 ^ 32`.** The integer part is the value rounded toward zero,
and the remainder is not negative, also that of a negative number. Subnormal numbers have the word zero, and so do the
numbers from `2 ^ 84` on, which are multiples of `2 ^ 32`. Infinities and NaNs have the word zero as well.

**Proof sketch.** Rounding toward zero only clears bits of the fraction. The remainder is exact for all numbers, and
it is an integer between `-2 ^ 32` and `2 ^ 32`. Raised by `2 ^ 32`, a negative one is an integer below `2 ^ 32`. It is
a number, so the sum is not rounded, and the cut to a word leaves it. -/
theorem toUnsigned_exact (x : Binary64) :
    ((toUnsigned x).toNat : ℤ) = if x.isInfinite || x.isNaN then 0 else towardZero x.toRat % 2 ^ 32 := by
  cases hx : x.isFinite with
  | false =>
    rw [toUnsigned_of_not_isFinite hx, if_pos (by simpa using not_isFinite_iff.mp hx)]
    rfl
  | true =>
    obtain ⟨ht, hsign, habs⟩ := absRat_trunc hx
    obtain ⟨hfinite, m, hvalue, hm⟩ := remEuclid_wordCount ht habs
    rw [hsign] at hm
    rw [isInfinite_of_isFinite hx, isNaN_of_isFinite hx, toUnsigned, toNat_toWord hfinite hvalue (by omega), hm,
      toRat_eq, towardZero_signRat_mul _ x.absRat_nonneg]
    rfl

end ScriptCore.Bit32
