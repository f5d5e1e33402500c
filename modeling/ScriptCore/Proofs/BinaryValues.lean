import Mathlib
import ScriptCore.Numeral.Binary64

set_option relaxedAutoImplicit false
set_option autoImplicit false

/-!
# The values of numbers

A finite number stands for a rational number, which its sign, exponent and fraction give. The functions that work on
patterns are told here by these values.

## Main definitions

* `ScriptCore.Binary64.toRat` — the value of a number.
* `ScriptCore.Binary64.absRat` — its absolute value, by the significand and the scale.
* `ScriptCore.Binary64.towardZero` — the integer part of a rational number.

## Main results

* `ScriptCore.Binary64.scale_eq_max` — the scale of a number is given by its absolute value.
* `ScriptCore.Binary64.exists_of_scaled` — the rational numbers that are values.
* `ScriptCore.Binary64.ofRatio_eq` — a fraction that is a value is not rounded.
* `ScriptCore.Binary64.truncate_eq_towardZero`, `ScriptCore.Binary64.absRat_trunc` — integer parts.
* `ScriptCore.Binary64.absRat_rem` — remainders are exact.
-/

namespace ScriptCore.Binary64

/-! ## Fields of a pattern -/

lemma isNegative_iff {x : Binary64} : x.isNegative = true ↔ signWeight ≤ x.bits.toNat := by
  rw [isNegative, decide_eq_true_eq]

lemma toNat_bits (x : Binary64) : x.bits.toNat = (if x.isNegative then signWeight else 0) + x.magnitude := by
  have hlt : x.bits.toNat < 2 ^ 64 := x.bits.toNat_lt
  simp only [isNegative_iff, magnitude, signWeight]
  split_ifs <;> omega

lemma ofSignMagnitude_eta (x : Binary64) : ofSignMagnitude x.isNegative x.magnitude = x := by
  rw [ofSignMagnitude, ← toNat_bits, UInt64.ofNat_toNat]

section OfSignMagnitude

variable {negative : Bool} {m : ℕ}

lemma toNat_bits_ofSignMagnitude (h : m < signWeight) :
    (ofSignMagnitude negative m).bits.toNat = (if negative then signWeight else 0) + m := by
  rw [ofSignMagnitude, UInt64.toNat_ofNat']
  apply Nat.mod_eq_of_lt
  simp only [signWeight] at h ⊢
  split_ifs <;> omega

lemma isNegative_ofSignMagnitude (h : m < signWeight) : (ofSignMagnitude negative m).isNegative = negative := by
  rw [isNegative, toNat_bits_ofSignMagnitude h]
  cases negative <;> simp [h]

lemma magnitude_ofSignMagnitude (h : m < signWeight) : (ofSignMagnitude negative m).magnitude = m := by
  rw [magnitude, toNat_bits_ofSignMagnitude h]
  cases negative <;> simp [Nat.mod_eq_of_lt h]

end OfSignMagnitude

lemma magnitude_eq (x : Binary64) : x.magnitude = x.exponentField * hiddenBit + x.fractionField := by
  rw [exponentField, fractionField, Nat.mul_comm, Nat.div_add_mod]

lemma fractionField_lt (x : Binary64) : x.fractionField < hiddenBit := Nat.mod_lt _ (by decide)

lemma isFinite_iff {x : Binary64} : x.isFinite = true ↔ x.exponentField < specialExponent := by
  have hfraction := x.fractionField_lt
  rw [isFinite, decide_eq_true_eq, magnitude_eq, infiniteMagnitude]
  simp only [hiddenBit, specialExponent] at *
  omega

/-- A number is finite, infinite or a NaN. -/
lemma not_isFinite_iff {x : Binary64} : x.isFinite = false ↔ x.isInfinite = true ∨ x.isNaN = true := by
  simp only [isFinite, isInfinite, isNaN, decide_eq_true_eq, decide_eq_false_iff_not]
  omega

lemma isNaN_of_isFinite {x : Binary64} (hx : x.isFinite = true) : x.isNaN = false := by
  rw [isFinite, decide_eq_true_eq] at hx
  exact decide_eq_false hx.not_gt

lemma isInfinite_of_isFinite {x : Binary64} (hx : x.isFinite = true) : x.isInfinite = false := by
  rw [isFinite, decide_eq_true_eq] at hx
  exact decide_eq_false hx.ne

/-! ## Values -/

/-- The value of a sign. -/
def signRat (negative : Bool) : ℚ := if negative then -1 else 1

/-- **The value of a finite number.** The fraction is one of `2 ^ 52` parts of the unit. Behind the unit it is scaled
by the exponent, without its bias, and with the exponent zero it is scaled like with the exponent one and the unit
is missing. -/
def toRat (x : Binary64) : ℚ :=
  signRat x.isNegative *
    if x.exponentField = 0 then (x.fractionField : ℚ) / 2 ^ 52 * 2 ^ (-1022 : ℤ)
    else (1 + (x.fractionField : ℚ) / 2 ^ 52) * 2 ^ ((x.exponentField : ℤ) - 1023)

/-- The absolute value of a finite number. -/
def absRat (x : Binary64) : ℚ := x.significand * 2 ^ x.scale

/-- The integer part of a rational number, which is the number rounded toward zero. -/
def towardZero (q : ℚ) : ℤ := if 0 ≤ q then ⌊q⌋ else ⌈q⌉

lemma toRat_eq (x : Binary64) : x.toRat = signRat x.isNegative * x.absRat := by
  have hpart : (2 : ℚ) ^ (-52 : ℤ) = 1 / 2 ^ 52 := by norm_num
  rw [toRat, absRat]
  congr 1
  by_cases h : x.exponentField = 0
  · have hscale : x.scale = -52 + -1022 := by simp [scale, h]
    rw [if_pos h, significand, if_pos h, hscale, zpow_add₀ two_ne_zero, hpart]
    ring
  · have hscale : x.scale = -52 + ((x.exponentField : ℤ) - 1023) := by
      simp only [scale]
      omega
    rw [if_neg h, significand, if_neg h, hscale, zpow_add₀ two_ne_zero, hpart, hiddenBit]
    push_cast
    ring

lemma absRat_nonneg (x : Binary64) : 0 ≤ x.absRat := by
  unfold absRat
  positivity

lemma abs_toRat (x : Binary64) : |x.toRat| = x.absRat := by
  rw [toRat_eq, signRat]
  split_ifs <;> simp [abs_of_nonneg x.absRat_nonneg]

/-- The sign of a number is the one of its value, unless it is a zero. -/
lemma isNegative_iff_toRat_neg {x : Binary64} (hne : x.toRat ≠ 0) : x.isNegative = true ↔ x.toRat < 0 := by
  have hpos : 0 < x.absRat := x.abs_toRat ▸ abs_pos.mpr hne
  rw [toRat_eq, signRat]
  cases x.isNegative with
  | false => simpa using hpos.le
  | true => simpa using hpos

lemma significand_eq_zero_iff {x : Binary64} : x.significand = 0 ↔ x.magnitude = 0 := by
  rw [significand, magnitude_eq]
  simp only [hiddenBit]
  split_ifs <;> omega

lemma absRat_eq_zero_iff {x : Binary64} : x.absRat = 0 ↔ x.magnitude = 0 := by
  have hpow : (2 : ℚ) ^ x.scale ≠ 0 := zpow_ne_zero _ two_ne_zero
  rw [absRat, mul_eq_zero, or_iff_left hpow, Nat.cast_eq_zero, significand_eq_zero_iff]

lemma toRat_of_significand_eq_zero {x : Binary64} (h : x.significand = 0) : x.toRat = 0 := by
  rw [toRat_eq, absRat, h, Nat.cast_zero, zero_mul, mul_zero]

/-- A significand carries its hidden bit into the exponent. -/
lemma magnitude_eq_add (x : Binary64) : x.magnitude = (x.exponentField - 1) * hiddenBit + x.significand := by
  rw [magnitude_eq, significand, hiddenBit]
  split_ifs <;> omega

lemma significand_lt (x : Binary64) : x.significand < 2 ^ 53 := by
  have hfraction := x.fractionField_lt
  rw [significand]
  simp only [hiddenBit] at *
  split_ifs <;> omega

lemma le_scale (x : Binary64) : -1074 ≤ x.scale := by
  simp only [scale]
  omega

lemma scale_le {x : Binary64} (hx : x.isFinite = true) : x.scale ≤ 971 := by
  rw [isFinite_iff, specialExponent] at hx
  simp only [scale]
  omega

/-! ### Scaled integers -/

lemma two_zpow_ne_zero (s : ℤ) : (2 : ℚ) ^ s ≠ 0 := zpow_ne_zero s two_ne_zero

lemma mul_zpow_eq_div (n : ℕ) (s : ℤ) :
    (n : ℚ) * 2 ^ s = (n * 2 ^ s.toNat : ℕ) / (2 ^ (-s).toNat : ℕ) := by
  have hsplit : s = (s.toNat : ℤ) + -((-s).toNat : ℤ) := by omega
  conv_lhs => rw [hsplit, zpow_add₀ two_ne_zero, zpow_neg, zpow_natCast, zpow_natCast]
  push_cast
  rw [div_eq_mul_inv, mul_assoc]

lemma log_eq_of_le_of_lt {q : ℚ} {e : ℤ} (hlow : (2 : ℚ) ^ e ≤ q) (hhigh : q < (2 : ℚ) ^ (e + 1)) :
    Int.log 2 q = e := by
  have hpos : 0 < q := lt_of_lt_of_le (by positivity) hlow
  apply le_antisymm
  · rw [← Int.lt_add_one_iff]
    exact (Int.lt_zpow_iff_log_lt (by norm_num) hpos).mp (by exact_mod_cast hhigh)
  · exact (Int.zpow_le_iff_le_log (by norm_num) hpos).mp (by exact_mod_cast hlow)

/-- A positive integer between two powers of two. -/
lemma log2_bounds {n : ℕ} (hn : n ≠ 0) : (2 : ℚ) ^ (n.log2 : ℤ) ≤ n ∧ (n : ℚ) < 2 ^ ((n.log2 : ℤ) + 1) := by
  have hlow : 2 ^ n.log2 ≤ n := Nat.log2_self_le hn
  have hhigh : n < 2 ^ (n.log2 + 1) := Nat.lt_log2_self
  constructor
  · exact_mod_cast hlow
  · exact_mod_cast hhigh

/-- The logarithm of a scaled integer. -/
lemma log_mul_zpow {n : ℕ} (hn : n ≠ 0) (s : ℤ) : Int.log 2 ((n : ℚ) * 2 ^ s) = n.log2 + s := by
  obtain ⟨hlow, hhigh⟩ := log2_bounds hn
  apply log_eq_of_le_of_lt
  · rw [zpow_add₀ two_ne_zero]
    exact mul_le_mul_of_nonneg_right hlow (by positivity)
  · rw [add_right_comm, zpow_add₀ two_ne_zero]
    exact mul_lt_mul_of_pos_right hhigh (by positivity)

/-- **The scale of a number is given by its absolute value**: it is the one with which the significand has 53 bits,
or the smallest scale. -/
theorem scale_eq_max {x : Binary64} (hx : x.significand ≠ 0) : x.scale = max (Int.log 2 x.absRat - 52) (-1074) := by
  have hfraction := x.fractionField_lt
  rw [absRat, log_mul_zpow hx]
  by_cases h : x.exponentField = 0
  · have hlog : x.significand.log2 < 52 := by
      rw [Nat.log2_lt hx, significand, if_pos h]
      exact hfraction
    simp only [scale, h]
    omega
  · have hlog : x.significand.log2 = 52 := by
      rw [Nat.log2_eq_iff hx, significand, if_neg h]
      simp only [hiddenBit] at *
      omega
    simp only [scale, hlog]
    omega

/-- The fields of a magnitude. Above the smallest scale the significand has the hidden bit. -/
lemma significand_ofSignMagnitude (negative : Bool) {k n : ℕ} (hk : k < 2046) (hn : n < 2 ^ 53)
    (hidden : k = 0 ∨ hiddenBit ≤ n) :
    (ofSignMagnitude negative (k * hiddenBit + n)).isFinite = true ∧
    (ofSignMagnitude negative (k * hiddenBit + n)).isNegative = negative ∧
    (ofSignMagnitude negative (k * hiddenBit + n)).significand = n ∧
    (ofSignMagnitude negative (k * hiddenBit + n)).scale = k - 1074 := by
  have hlt : k * hiddenBit + n < signWeight := by
    simp only [hiddenBit, signWeight]
    omega
  have hmagnitude : (ofSignMagnitude negative (k * hiddenBit + n)).magnitude = k * hiddenBit + n :=
    magnitude_ofSignMagnitude hlt
  have hexponent : (ofSignMagnitude negative (k * hiddenBit + n)).exponentField = k + n / hiddenBit := by
    rw [exponentField, hmagnitude, Nat.mul_comm, Nat.mul_add_div (by decide)]
  have hfraction : (ofSignMagnitude negative (k * hiddenBit + n)).fractionField = n % hiddenBit := by
    rw [fractionField, hmagnitude, Nat.mul_comm, Nat.mul_add_mod]
  simp only [hiddenBit] at hidden
  refine ⟨?_, isNegative_ofSignMagnitude hlt, ?_, ?_⟩
  · rw [isFinite_iff, hexponent, specialExponent, hiddenBit]
    omega
  · rw [significand, hexponent, hfraction]
    by_cases hzero : k + n / hiddenBit = 0
    · rw [if_pos hzero]
      simp only [hiddenBit] at hzero ⊢
      omega
    · rw [if_neg hzero]
      simp only [hiddenBit] at hzero ⊢
      omega
  · rw [scale, hexponent, hiddenBit]
    omega

/-- **Integers of 53 bits are values at each scale of the format.** -/
theorem exists_of_scaled (negative : Bool) {n : ℕ} {s : ℤ} (hn : n < 2 ^ 53) (hlow : -1074 ≤ s) (hhigh : s ≤ 971) :
    ∃ x : Binary64, x.isFinite = true ∧ x.isNegative = negative ∧ x.absRat = n * 2 ^ s := by
  -- the integer is doubled until its top bit is the hidden one, or until the scale is the smallest
  obtain ⟨k, rfl⟩ : ∃ k : ℕ, s = k - 1074 := ⟨(s + 1074).toNat, by omega⟩
  induction k generalizing n with
  | zero =>
    obtain ⟨hfinite, hsign, hsignificand, hscale⟩ :=
      significand_ofSignMagnitude negative (k := 0) (by omega) hn (.inl rfl)
    exact ⟨_, hfinite, hsign, by rw [absRat, hsignificand, hscale]⟩
  | succ k ih =>
    by_cases hidden : hiddenBit ≤ n
    · obtain ⟨hfinite, hsign, hsignificand, hscale⟩ :=
        significand_ofSignMagnitude negative (k := k + 1) (by omega) hn (.inr hidden)
      exact ⟨_, hfinite, hsign, by rw [absRat, hsignificand, hscale]⟩
    · simp only [hiddenBit] at hidden
      obtain ⟨x, hfinite, hsign, habs⟩ := ih (n := 2 * n) (by omega) (by omega) (by omega)
      refine ⟨x, hfinite, hsign, ?_⟩
      rw [habs, show ((k + 1 : ℕ) : ℤ) - 1074 = ((k : ℤ) - 1074) + 1 by push_cast; ring, zpow_add_one₀ two_ne_zero]
      push_cast
      ring

/-! ## Fractions -/

/-- The test that chooses between the two logarithms a fraction can have. -/
lemma pow_le_div_iff {num den : ℕ} (hden : den ≠ 0) (e : ℤ) :
    den * 2 ^ e.toNat ≤ num * 2 ^ (-e).toNat ↔ (2 : ℚ) ^ e ≤ num / den := by
  have hpow : (2 : ℚ) ^ e = (2 ^ e.toNat : ℕ) / (2 ^ (-e).toNat : ℕ) := by simpa using mul_zpow_eq_div 1 e
  rw [hpow, div_le_div_iff₀ (by positivity) (by positivity), Nat.mul_comm den]
  exact_mod_cast Iff.rfl

/-- The logarithm of a fraction. -/
lemma floorLog_eq {num den : ℕ} (hnum : num ≠ 0) (hden : den ≠ 0) :
    floorLog num den = Int.log 2 ((num : ℚ) / den) := by
  have hpos : (0 : ℚ) < den := by positivity
  obtain ⟨hnumlow, hnumhigh⟩ := log2_bounds hnum
  obtain ⟨hdenlow, hdenhigh⟩ := log2_bounds hden
  -- the logarithms of both sides leave two candidates
  have hlow : (2 : ℚ) ^ ((num.log2 : ℤ) - den.log2 - 1) ≤ num / den := by
    rw [le_div_iff₀ hpos]
    calc (2 : ℚ) ^ ((num.log2 : ℤ) - den.log2 - 1) * den
        ≤ 2 ^ ((num.log2 : ℤ) - den.log2 - 1) * 2 ^ ((den.log2 : ℤ) + 1) := by gcongr
      _ = 2 ^ (num.log2 : ℤ) := by
        rw [← zpow_add₀ two_ne_zero]
        congr 1
        ring
      _ ≤ num := hnumlow
  have hhigh : (num : ℚ) / den < 2 ^ ((num.log2 : ℤ) - den.log2 + 1) := by
    rw [div_lt_iff₀ hpos]
    calc (num : ℚ)
        < 2 ^ ((num.log2 : ℤ) + 1) := hnumhigh
      _ = 2 ^ ((num.log2 : ℤ) - den.log2 + 1) * 2 ^ (den.log2 : ℤ) := by
        rw [← zpow_add₀ two_ne_zero]
        congr 1
        ring
      _ ≤ 2 ^ ((num.log2 : ℤ) - den.log2 + 1) * den := by gcongr
  simp only [floorLog, Nat.pow_eq, pow_le_div_iff hden]
  split_ifs with htest
  · exact (log_eq_of_le_of_lt htest hhigh).symm
  · exact (log_eq_of_le_of_lt hlow (by simpa using htest)).symm

/-- An exact quotient is not rounded. -/
lemma roundHalfEven_mul (q : ℕ) {den : ℕ} (h : 0 < den) : roundHalfEven (q * den) den = q := by
  simp [roundHalfEven, Nat.mul_div_cancel _ h]
  omega

/-- **A fraction that is a value is not rounded.** -/
theorem ofRatio_eq {x : Binary64} {num den : ℕ} (hx : x.isFinite = true) (hden : den ≠ 0)
    (h : (num : ℚ) / den = x.absRat) : ofRatio x.isNegative num den = x := by
  have hden' : (den : ℚ) ≠ 0 := Nat.cast_ne_zero.mpr hden
  unfold ofRatio
  split_ifs with hnum
  · have hzero : x.magnitude = 0 := by
      rw [← absRat_eq_zero_iff, ← h, hnum, Nat.cast_zero, zero_div]
    rw [← hzero, ofSignMagnitude_eta]
  · have hsignificand : x.significand ≠ 0 := by
      rw [Ne, significand_eq_zero_iff, ← absRat_eq_zero_iff, ← h, div_eq_zero_iff]
      simp [hnum, hden]
    have hexponent : max (floorLog num den) (-1022) = x.scale + 52 := by
      rw [scale_eq_max hsignificand, ← h, floorLog_eq hnum hden]
      omega
    have hquot : num * 2 ^ (-x.scale).toNat = x.significand * (den * 2 ^ x.scale.toNat) := by
      rw [absRat, mul_zpow_eq_div, div_eq_div_iff hden' (by positivity)] at h
      rw [Nat.mul_comm den, ← Nat.mul_assoc]
      exact_mod_cast h
    have hmagnitude : (x.scale + 52 + 1022).toNat * hiddenBit + x.significand = x.magnitude := by
      rw [magnitude_eq_add, scale]
      congr 2
      omega
    have hle : x.magnitude ≤ infiniteMagnitude := by
      rw [isFinite, decide_eq_true_eq] at hx
      exact hx.le
    simp only [hexponent, add_sub_cancel_right, Nat.pow_eq, hquot]
    rw [roundHalfEven_mul _ (by positivity), hmagnitude, Nat.min_eq_left hle, ofSignMagnitude_eta]

/-- A finite number is given by its sign and its absolute value. -/
lemma eq_of_absRat_eq {x y : Binary64} (hx : x.isFinite = true) (hy : y.isFinite = true)
    (hsign : x.isNegative = y.isNegative) (h : x.absRat = y.absRat) : x = y := by
  have hvalue := mul_zpow_eq_div x.significand x.scale
  rw [← absRat] at hvalue
  rw [← ofRatio_eq hx (by positivity) hvalue.symm, ← ofRatio_eq hy (by positivity) (hvalue.symm.trans h), hsign]

/-- A finite number is given by its value, unless it is a zero. -/
lemma eq_of_toRat_eq {x y : Binary64} (hx : x.isFinite = true) (hy : y.isFinite = true) (hne : y.toRat ≠ 0)
    (h : x.toRat = y.toRat) : x = y := by
  apply eq_of_absRat_eq hx hy
  · rw [Bool.eq_iff_iff, isNegative_iff_toRat_neg (h ▸ hne), isNegative_iff_toRat_neg hne, h]
  · rw [← abs_toRat, ← abs_toRat, h]

/-! ## Integer parts -/

/-- The integer part of an absolute value, by the fields. -/
lemma floor_absRat (x : Binary64) :
    ⌊x.absRat⌋₊ = x.significand * 2 ^ x.scale.toNat / 2 ^ (-x.scale).toNat := by
  rw [absRat, mul_zpow_eq_div, Nat.floor_div_eq_div]

lemma towardZero_signRat_mul (negative : Bool) {q : ℚ} (hq : 0 ≤ q) :
    towardZero (signRat negative * q) = if negative then -(⌊q⌋₊ : ℤ) else ⌊q⌋₊ := by
  rw [Int.natCast_floor_eq_floor hq, towardZero, signRat]
  cases negative with
  | false => simp [hq]
  | true =>
    simp only [if_true, neg_one_mul, neg_nonneg, Int.ceil_neg]
    split_ifs with hle
    · obtain rfl : q = 0 := le_antisymm hle hq
      simp
    · rfl

/-- The integer part of a finite number is the one of its value. -/
theorem truncate_eq_towardZero {x : Binary64} (hx : x.isFinite = true) : x.truncate = towardZero x.toRat := by
  simp only [truncate, if_pos hx, Nat.pow_eq, ← floor_absRat, toRat_eq, towardZero_signRat_mul _ x.absRat_nonneg]

/-- Clearing bits of the fraction leaves a multiple of the unit. -/
lemma absRat_clear {x : Binary64} {k : ℕ} (hx : x.isFinite = true) (hk : k ≤ 52) (hnormal : x.exponentField ≠ 0) :
    (ofSignMagnitude x.isNegative (x.magnitude - x.magnitude % 2 ^ k)).isFinite = true ∧
    (ofSignMagnitude x.isNegative (x.magnitude - x.magnitude % 2 ^ k)).isNegative = x.isNegative ∧
    (ofSignMagnitude x.isNegative (x.magnitude - x.magnitude % 2 ^ k)).absRat =
      ((2 ^ k * (x.significand / 2 ^ k) : ℕ) : ℚ) * 2 ^ x.scale := by
  have hlt := x.significand_lt
  have hdiv := Nat.div_add_mod x.significand (2 ^ k)
  have hsplit : hiddenBit = 2 ^ k * 2 ^ (52 - k) := by
    rw [← Nat.pow_add, Nat.add_sub_cancel' hk]
    rfl
  have hmagnitude : x.magnitude - x.magnitude % 2 ^ k =
      (x.exponentField - 1) * hiddenBit + 2 ^ k * (x.significand / 2 ^ k) := by
    have hmod : x.magnitude % 2 ^ k = x.significand % 2 ^ k := by
      rw [magnitude_eq_add, hsplit, Nat.mul_left_comm, Nat.mul_add_mod]
    rw [hmod, magnitude_eq_add]
    omega
  have hidden : hiddenBit ≤ 2 ^ k * (x.significand / 2 ^ k) := by
    rw [hsplit]
    apply Nat.mul_le_mul_left
    rw [Nat.le_div_iff_mul_le (by positivity), Nat.mul_comm, ← hsplit, significand, if_neg hnormal]
    exact Nat.le_add_right _ _
  rw [isFinite_iff, specialExponent] at hx
  obtain ⟨hfinite, hsign, hsignificand, hscale⟩ :=
    significand_ofSignMagnitude x.isNegative (k := x.exponentField - 1)
      (n := 2 ^ k * (x.significand / 2 ^ k)) (by omega) (by omega) (.inr hidden)
  rw [hmagnitude]
  refine ⟨hfinite, hsign, ?_⟩
  rw [absRat, hsignificand, hscale, scale]
  congr 2
  omega

/-- The integer part of a finite number is a number with the same sign. -/
theorem absRat_trunc {x : Binary64} (hx : x.isFinite = true) :
    x.trunc.isFinite = true ∧ x.trunc.isNegative = x.isNegative ∧ x.trunc.absRat = ⌊x.absRat⌋₊ := by
  rw [floor_absRat, trunc]
  split_ifs with hsmall hlarge
  · -- below one
    have hscale : x.scale ≤ -53 := by
      simp only [scale]
      omega
    have hle : 2 ^ 53 ≤ 2 ^ (-x.scale).toNat := Nat.pow_le_pow_right two_pos (by omega)
    have hlt := x.significand_lt
    obtain ⟨hfinite, hsign, hsignificand, -⟩ :=
      significand_ofSignMagnitude x.isNegative (k := 0) (n := 0) (by omega) (by omega) (.inl rfl)
    rw [Int.toNat_of_nonpos (by omega), pow_zero, mul_one, Nat.div_eq_of_lt (by omega)]
    simp only [Nat.zero_mul, Nat.zero_add] at hfinite hsign hsignificand
    exact ⟨hfinite, hsign, by rw [absRat, hsignificand, Nat.cast_zero, zero_mul]⟩
  · -- without bits below the unit
    refine ⟨hx, rfl, ?_⟩
    have hscale : (-x.scale).toNat = 0 := by
      simp only [scale]
      omega
    rw [absRat, mul_zpow_eq_div, hscale, pow_zero, Nat.div_one, Nat.cast_one, div_one]
  · have hscale : x.scale = -(1075 - x.exponentField : ℕ) := by
      simp only [scale]
      omega
    obtain ⟨hfinite, hsign, habs⟩ := absRat_clear (k := 1075 - x.exponentField) hx (by omega) (by omega)
    refine ⟨hfinite, hsign, habs.trans ?_⟩
    rw [hscale, Int.toNat_of_nonpos (by omega), pow_zero, mul_one, neg_neg, Int.toNat_natCast, zpow_neg, zpow_natCast,
      Nat.cast_mul, Nat.cast_pow, Nat.cast_ofNat, mul_right_comm, mul_inv_cancel₀ (by positivity), one_mul]

/-! ## Remainders -/

/-- The absolute value in units of a scale that is not larger. -/
lemma absRat_of_le_scale {x : Binary64} {s : ℤ} (h : s ≤ x.scale) :
    x.absRat = (x.significand * 2 ^ (x.scale - s).toNat : ℕ) * 2 ^ s := by
  have hsplit : x.scale = ((x.scale - s).toNat : ℤ) + s := by omega
  rw [absRat]
  conv_lhs => rw [hsplit, zpow_add₀ two_ne_zero, zpow_natCast]
  push_cast
  ring

/-- **Remainders are exact.** The remainder has the sign of the first number, and its absolute value is what the
quotient, rounded down, leaves of the absolute values. In units of the smaller scale it is the remainder of integers,
and it is below the significand with this scale, so it is a value. -/
theorem absRat_rem {x y : Binary64} (hx : x.isFinite = true) (hy : y.isFinite = true) (hzero : y.isZero = false) :
    (x.rem y).isFinite = true ∧ (x.rem y).isNegative = x.isNegative ∧
    (x.rem y).absRat = x.absRat - y.absRat * ⌊x.absRat / y.absRat⌋₊ := by
  obtain ⟨s, hs⟩ : ∃ s, s = min x.scale y.scale := ⟨_, rfl⟩
  obtain ⟨a, ha⟩ : ∃ a, a = x.significand * 2 ^ (x.scale - s).toNat := ⟨_, rfl⟩
  obtain ⟨b, hb⟩ : ∃ b, b = y.significand * 2 ^ (y.scale - s).toNat := ⟨_, rfl⟩
  have hxabs : x.absRat = a * 2 ^ s := ha ▸ absRat_of_le_scale (by omega)
  have hyabs : y.absRat = b * 2 ^ s := hb ▸ absRat_of_le_scale (by omega)
  have hrem : x.rem y = ofRatio x.isNegative (a % b * 2 ^ s.toNat) (2 ^ (-s).toNat) := by
    simp only [rem, isNaN_of_isFinite, isInfinite_of_isFinite, hx, hy, hzero, Bool.or_self, Bool.false_eq_true,
      if_false, Nat.pow_eq, ← hs, ← ha, ← hb]
  have hbpos : 0 < b := by
    rw [isZero, decide_eq_false_iff_not, ← significand_eq_zero_iff] at hzero
    rw [hb]
    positivity
  have hlt : a % b < 2 ^ 53 := by
    have hxlt := x.significand_lt
    have hylt := y.significand_lt
    rcases le_total x.scale y.scale with hle | hle
    · have hunits : a = x.significand := by rw [ha, hs, min_eq_left hle, sub_self, Int.toNat_zero, pow_zero, mul_one]
      exact lt_of_le_of_lt (Nat.mod_le _ _) (hunits ▸ hxlt)
    · have hunits : b = y.significand := by rw [hb, hs, min_eq_right hle, sub_self, Int.toNat_zero, pow_zero, mul_one]
      exact (Nat.mod_lt _ hbpos).trans (hunits ▸ hylt)
  have hlow := x.le_scale
  have hlow' := y.le_scale
  have hhigh := scale_le hx
  obtain ⟨z, hfinite, hsign, habs⟩ := exists_of_scaled x.isNegative (s := s) hlt (by omega) (by omega)
  have hz : x.rem y = z := by
    rw [hrem, ← hsign]
    exact ofRatio_eq hfinite (by positivity) (by rw [habs, mul_zpow_eq_div])
  refine hz ▸ ⟨hfinite, hsign, ?_⟩
  have hdiv : (a : ℚ) = b * (a / b : ℕ) + (a % b : ℕ) := by exact_mod_cast (Nat.div_add_mod a b).symm
  rw [habs, hxabs, hyabs, mul_div_mul_right _ _ (two_zpow_ne_zero s), Nat.floor_div_eq_div]
  linear_combination (-(2 : ℚ) ^ s) * hdiv

/-! ## Order -/

/-- The negative numbers. Negative zero is not one of them. -/
lemma lt_zero_iff {x : Binary64} (hx : x.isFinite = true) : x.lt zero = true ↔ x.toRat < 0 := by
  have hnonneg := x.absRat_nonneg
  have hpos : 0 < x.absRat ↔ 0 < x.magnitude := by
    rw [hnonneg.lt_iff_ne', Nat.pos_iff_ne_zero, Ne, absRat_eq_zero_iff]
  have hzero : zero.isNaN = false ∧ zero.rank = 0 := by decide
  rw [lt, isNaN_of_isFinite hx, hzero.1, hzero.2, toRat_eq, signRat, rank]
  cases x.isNegative with
  | false =>
    have hmagnitude : (0 : ℤ) ≤ x.magnitude := Int.natCast_nonneg _
    simp [hmagnitude.not_gt, hnonneg.not_gt]
  | true => simpa using hpos.symm

end ScriptCore.Binary64
