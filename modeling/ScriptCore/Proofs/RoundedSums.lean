import Mathlib
import ScriptCore.Proofs.BinaryValues

set_option relaxedAutoImplicit false
set_option autoImplicit false

/-!
# Sums that are numbers

The sum of two numbers is computed by the core library: both are unpacked into a sign, an integer and a scale, added
at the smaller scale, and the sum is rounded to a significand. A sum that is the value of a number comes out of this
without a change.

## Main definitions

* `ScriptCore.Binary64.unpacked` — the form in which the core library computes.

## Main results

* `ScriptCore.Binary64.round_eq` — an integer at any scale that is the absolute value of a number is rounded to it.
* `ScriptCore.Binary64.add_eq` — a sum that is a value is not rounded.
-/

namespace ScriptCore.Binary64

open Float.Model (Format UnpackedFloat)
open Float.Model.UnpackedFloat

/-! ## Unpacked numbers -/

/-- The sign of a number. -/
def sign (x : Binary64) : Sign := if x.isNegative then .negative else .positive

/-- The form in which the core library computes with a number. -/
def unpacked (x : Binary64) : UnpackedFloat := unpack Format.binary64 x.bits.toBitVec

lemma toNat_unpackExponent (x : Binary64) :
    (@unpackExponent Format.binary64 x.bits.toBitVec).toNat = x.exponentField := by
  rw [unpackExponent_def, BitVec.extractLsb'_toNat, Nat.shiftRight_eq_div_pow, exponentField, magnitude]
  simp only [signWeight, hiddenBit, UInt64.toNat_toBitVec]
  omega

lemma toNat_unpackMantissa (x : Binary64) :
    (@unpackMantissa Format.binary64 x.bits.toBitVec).toNat = x.fractionField := by
  rw [unpackMantissa_def, BitVec.extractLsb'_toNat, Nat.shiftRight_eq_div_pow, fractionField, magnitude]
  simp only [signWeight, hiddenBit, UInt64.toNat_toBitVec]
  omega

lemma toNat_unpackSign (x : Binary64) :
    (@unpackSign Format.binary64 x.bits.toBitVec).toNat = if x.isNegative then 1 else 0 := by
  have hlt : x.bits.toNat < 2 ^ 64 := x.bits.toNat_lt
  rw [unpackSign_def, BitVec.extractLsb'_toNat, Nat.shiftRight_eq_div_pow]
  simp only [isNegative_iff, signWeight, UInt64.toNat_toBitVec]
  split_ifs <;> omega

lemma ofBitVec_unpackSign (x : Binary64) :
    Sign.ofBitVec (@unpackSign Format.binary64 x.bits.toBitVec) = x.sign := by
  have hsign := x.toNat_unpackSign
  cases hx : x.isNegative with
  | false =>
    rw [hx] at hsign
    rw [Sign.ofBitVec, if_pos (BitVec.toNat_inj.mp hsign), sign, hx]
    rfl
  | true =>
    rw [hx] at hsign
    have hne : @unpackSign Format.binary64 x.bits.toBitVec ≠ 0#1 := by
      intro heq
      rw [heq] at hsign
      exact absurd hsign (by decide)
    rw [Sign.ofBitVec, if_neg hne, sign, hx]
    rfl

section Unpacked

variable {x : Binary64}

lemma unpackExponent_eq_zero_iff :
    @unpackExponent Format.binary64 x.bits.toBitVec = 0#_ ↔ x.exponentField = 0 := by
  rw [← BitVec.toNat_inj, toNat_unpackExponent]
  rfl

lemma unpackMantissa_eq_zero_iff :
    @unpackMantissa Format.binary64 x.bits.toBitVec = 0#_ ↔ x.fractionField = 0 := by
  rw [← BitVec.toNat_inj, toNat_unpackMantissa]
  rfl

lemma unpackExponent_ne (hx : x.isFinite = true) :
    @unpackExponent Format.binary64 x.bits.toBitVec ≠ -1#_ := by
  intro heq
  have hexponent := x.toNat_unpackExponent
  rw [heq] at hexponent
  rw [isFinite_iff, ← hexponent] at hx
  exact absurd hx (by decide)

/-- A finite number is unpacked into its sign, its significand and its scale. -/
lemma unpacked_of_pos (hx : x.isFinite = true) (hpos : 0 < x.significand) :
    x.unpacked = .finite x.sign x.significand x.scale hpos := by
  have hbias : (Format.binary64.exponentBias : ℤ) = 1023 := rfl
  simp only [unpacked, unpack, if_neg (unpackExponent_ne hx), ofBitVec_unpackSign, toNat_unpackExponent,
    toNat_unpackMantissa, hbias]
  split_ifs with hexponent hmantissa
  · have hsignificand : x.significand = 0 := by
      rw [significand, if_pos (unpackExponent_eq_zero_iff.mp hexponent), unpackMantissa_eq_zero_iff.mp hmantissa]
    exact absurd hsignificand hpos.ne'
  · rw [unpackExponent_eq_zero_iff] at hexponent
    simp [significand, scale, hexponent]
  · rw [unpackExponent_eq_zero_iff] at hexponent
    have hhidden : (1#1 ++ @unpackMantissa Format.binary64 x.bits.toBitVec).toNat = x.significand := by
      have hlt : (@unpackMantissa Format.binary64 x.bits.toBitVec).toNat < 2 ^ 52 := BitVec.isLt _
      rw [BitVec.toNat_append, Nat.shiftLeft_eq, Nat.mul_comm, ← Nat.two_pow_add_eq_or_of_lt hlt, toNat_unpackMantissa,
        significand, if_neg hexponent]
      rfl
    simp only [hhidden, scale, finite.injEq, true_and]
    omega

/-- A zero is unpacked into its sign. -/
lemma unpacked_of_zero (hx : x.isFinite = true) (hzero : x.significand = 0) : x.unpacked = .zero x.sign := by
  have hexponent : x.exponentField = 0 := by
    by_contra h
    rw [significand, if_neg h, hiddenBit] at hzero
    omega
  rw [significand, if_pos hexponent, ← unpackMantissa_eq_zero_iff] at hzero
  rw [← unpackExponent_eq_zero_iff] at hexponent
  simp only [unpacked, unpack, if_neg (unpackExponent_ne hx), ofBitVec_unpackSign]
  rw [if_pos hexponent, dif_pos hzero]

/-- Packing a finite number again is without loss. -/
lemma pack_unpacked (hx : x.isFinite = true) : pack Format.binary64 x.unpacked = x.bits.toBitVec := by
  have hnan : ¬@isNaNBits Format.binary64 x.bits.toBitVec = true := by
    rw [isNaNBits, decide_eq_true_eq]
    exact fun h => unpackExponent_ne hx h.1
  rw [unpacked, pack_unpack _ (by decide), if_neg hnan]

lemma unpack_toFloat (hx : x.isFinite = true) : x.toFloat.toModel.unpack = x.unpacked := by
  show unpack Format.binary64 (pack Format.binary64 x.unpacked) = x.unpacked
  rw [pack_unpacked hx, unpacked]

end Unpacked

/-- What the core library computes with two numbers, packed. -/
lemma add_eq_of_unpacked {x y z : Binary64} (hx : x.isFinite = true) (hy : y.isFinite = true) (hz : z.isFinite = true)
    (h : UnpackedFloat.add Format.binary64 x.unpacked y.unpacked = z.unpacked) : x.add y = z := by
  have hbits : (x.add y).bits = UInt64.ofBitVec (pack Format.binary64 (UnpackedFloat.add Format.binary64
      x.toFloat.toModel.unpack y.toFloat.toModel.unpack)) := rfl
  rw [unpack_toFloat hx, unpack_toFloat hy, h, pack_unpacked hz] at hbits
  exact congrArg Binary64.mk hbits

/-! ## Rounding -/

section Rounding

variable {z : Binary64} {m : ℕ} {e : ℤ}

/-- The scale of a number is the one that rounding aims at. -/
lemma targetExponent_eq (hz : z.significand ≠ 0) (hm : m ≠ 0) (h : (m : ℚ) * 2 ^ e = z.absRat) :
    Format.binary64.targetExponent (Float.Model.totalExponent m e) = z.scale := by
  have hlog : Int.log 2 z.absRat = m.log2 + e := by rw [← h, log_mul_zpow hm]
  have hbits : Format.binary64.mantissaBits = 53 := rfl
  have hmin : Format.binary64.minExponent = -1074 := rfl
  rw [scale_eq_max hz, hlog, Format.targetExponent, Float.Model.totalExponent, hbits, hmin]
  congr 1
  push_cast
  ring

/-- Bits that are zero are shifted out without a trace. -/
lemma shiftRight_exact (n k : ℕ) :
    ((⟨n * 2 ^ k, false, false⟩ : ExtendedMantissa) >>> k) = ⟨n, false, false⟩ := by
  show k.repeat ExtendedMantissa.shiftRightOne _ = _
  induction k generalizing n with
  | zero => simp [Nat.repeat]
  | succ k ih =>
    have hdouble : n * 2 ^ (k + 1) = n * 2 * 2 ^ k := by ring
    rw [Nat.repeat, hdouble, ih]
    simp [ExtendedMantissa.shiftRightOne]

/-- The shift to the scale of the number. -/
lemma shiftToTargetExponent_eq (hz : z.significand ≠ 0) (hm : m ≠ 0) (he : e ≤ z.scale)
    (h : (m : ℚ) * 2 ^ e = z.absRat) :
    shiftToTargetExponent Format.binary64 m e .exact = (⟨z.significand, false, false⟩, z.scale) := by
  have hscaled : m = z.significand * 2 ^ (z.scale - e).toNat := by
    rw [absRat_of_le_scale he] at h
    exact_mod_cast mul_right_cancel₀ (two_zpow_ne_zero e) h
  have hshift : ExtendedMantissa.ofMantissaAndAccuracy m .exact >>> (z.scale - e).toNat =
      ⟨z.significand, false, false⟩ := by
    rw [hscaled]
    exact shiftRight_exact _ _
  simp only [shiftToTargetExponent, shiftToExponent, targetExponent_eq hz hm h, hshift, Prod.mk.injEq, true_and]
  omega

/-- Bits are dropped twice, at the scale of the number and at the one of the rounded significand, which is the same. -/
lemma roundWithAccuracy_eq (s : Sign) (hz : z.significand ≠ 0) (hm : m ≠ 0) (he : e ≤ z.scale)
    (h : (m : ℚ) * 2 ^ e = z.absRat) :
    roundWithAccuracy Format.binary64 s m e .exact = .finite s z.significand z.scale (Nat.pos_of_ne_zero hz) := by
  have hagain := shiftToTargetExponent_eq hz hz le_rfl (h := (rfl : (z.significand : ℚ) * 2 ^ z.scale = z.absRat))
  have hexact : (⟨z.significand, false, false⟩ : ExtendedMantissa).roundedMantissa = z.significand := rfl
  simp only [roundWithAccuracy, shiftToTargetExponent_eq hz hm he h, hexact, hagain, dif_neg hz]

/-- Bringing an integer to a smaller scale keeps what it stands for. -/
lemma decreaseExponent_fst (m : ℕ) {e t : ℤ} (ht : t ≤ e) :
    (((decreaseExponent m e t).1 : ℕ) : ℚ) * 2 ^ t = m * 2 ^ e := by
  have hsplit : e = ((e - t).toNat : ℤ) + t := by omega
  rw [decreaseExponent, Nat.shiftLeft_eq]
  conv_rhs => rw [hsplit, zpow_add₀ two_ne_zero, zpow_natCast]
  push_cast
  ring

/-- **An integer at any scale that is the absolute value of a number is rounded to it.** -/
theorem round_eq (s : Sign) (hz : z.significand ≠ 0) (hm : m ≠ 0) (h : (m : ℚ) * 2 ^ e = z.absRat) :
    UnpackedFloat.round Format.binary64 s m e = .finite s z.significand z.scale (Nat.pos_of_ne_zero hz) := by
  rw [UnpackedFloat.round, targetExponent_eq hz hm h]
  rcases le_total e z.scale with he | he
  · have hsame : decreaseExponent m e z.scale = (m, e) := by
      simp [decreaseExponent, Int.toNat_of_nonpos (sub_nonpos.mpr he)]
    simp only [hsame]
    exact roundWithAccuracy_eq s hz hm he h
  · have hvalue := decreaseExponent_fst m he
    have hscale : (decreaseExponent m e z.scale).2 = z.scale := by
      simp only [decreaseExponent]
      omega
    have hne : (decreaseExponent m e z.scale).1 ≠ 0 := by
      simp only [decreaseExponent, Nat.shiftLeft_eq]
      positivity
    obtain ⟨n, hn⟩ : ∃ n, decreaseExponent m e z.scale = (n, z.scale) := ⟨_, Prod.ext rfl hscale⟩
    rw [hn] at hvalue hne
    simp only [hn]
    exact roundWithAccuracy_eq s hz hne le_rfl (hvalue.trans h)

end Rounding

/-! ## Sums -/

/-- A signed integer at any scale that is the value of a number is rounded to it. -/
lemma normalize_eq {z : Binary64} {n e : ℤ} (s : Sign) (hz : z.isFinite = true) (hne : z.toRat ≠ 0)
    (h : (n : ℚ) * 2 ^ e = z.toRat) : UnpackedFloat.normalize Format.binary64 n e s = z.unpacked := by
  have hpow : (0 : ℚ) < 2 ^ e := by positivity
  have habs : ((n.natAbs : ℕ) : ℚ) * 2 ^ e = z.absRat := by
    rw [← abs_toRat, ← h, abs_mul, abs_of_pos hpow, Nat.cast_natAbs, Int.cast_abs]
  have hsignificand : z.significand ≠ 0 := by
    rw [Ne, significand_eq_zero_iff, ← absRat_eq_zero_iff, ← abs_toRat, abs_eq_zero]
    exact hne
  have hsign : z.isNegative = true ↔ n < 0 := by
    rw [isNegative_iff_toRat_neg hne, ← h, ← zero_mul ((2 : ℚ) ^ e), mul_lt_mul_iff_left₀ hpow, Int.cast_lt_zero]
  rw [unpacked_of_pos hz (Nat.pos_of_ne_zero hsignificand), UnpackedFloat.normalize, sign]
  rcases lt_trichotomy n 0 with hn | rfl | hn
  · have hnat : (-n).toNat = n.natAbs := by omega
    rw [compare_lt_iff_lt.mpr hn, if_pos (hsign.mpr hn), hnat]
    exact round_eq .negative hsignificand (by omega) habs
  · exact absurd h.symm (by simpa using hne)
  · have hnat : n.toNat = n.natAbs := by omega
    rw [compare_gt_iff_gt.mpr hn, if_neg (mt hsign.mp (by omega)), hnat]
    exact round_eq .positive hsignificand (by omega) habs

/-- Bringing a signed significand to a smaller scale. -/
lemma apply_decreaseExponent (x : Binary64) {t : ℤ} (ht : t ≤ x.scale) :
    ((x.sign.apply (decreaseExponent x.significand x.scale t).1 : ℤ) : ℚ) * 2 ^ t = x.toRat := by
  have hvalue := decreaseExponent_fst x.significand ht
  rw [toRat_eq, absRat, ← hvalue, signRat, sign]
  cases x.isNegative <;> simp [Sign.apply]

/-- **A sum that is a value is not rounded.** A sum that is zero is left out, since its sign is not given by the
value.

**Proof sketch.** Where one side is a zero, the sum is the other side, and a number other than a zero is given by its
value. Otherwise both significands are brought to the smaller scale without a loss and added. The scale that rounding
aims at is given by the absolute value, so it is the scale of the sum, and there only zero bits are dropped, or
appended. -/
theorem add_eq {x y z : Binary64} (hx : x.isFinite = true) (hy : y.isFinite = true) (hz : z.isFinite = true)
    (hne : z.toRat ≠ 0) (h : x.toRat + y.toRat = z.toRat) : x.add y = z := by
  apply add_eq_of_unpacked hx hy hz
  rcases Nat.eq_zero_or_pos x.significand with hx₀ | hx₀
  · have hxzero := toRat_of_significand_eq_zero hx₀
    obtain rfl : y = z := eq_of_toRat_eq hy hz hne (by rw [← h, hxzero, zero_add])
    rcases Nat.eq_zero_or_pos y.significand with hy₀ | hy₀
    · exact absurd (toRat_of_significand_eq_zero hy₀) hne
    · rw [unpacked_of_zero hx hx₀, unpacked_of_pos hy hy₀]
      rfl
  · rcases Nat.eq_zero_or_pos y.significand with hy₀ | hy₀
    · have hyzero := toRat_of_significand_eq_zero hy₀
      obtain rfl : x = z := eq_of_toRat_eq hx hz hne (by rw [← h, hyzero, add_zero])
      rw [unpacked_of_zero hy hy₀, unpacked_of_pos hx hx₀]
      rfl
    · have hxvalue := x.apply_decreaseExponent (min_le_left x.scale y.scale)
      have hyvalue := y.apply_decreaseExponent (min_le_right x.scale y.scale)
      have hsum := congrArg₂ (· + ·) hxvalue hyvalue
      simp only [← add_mul, ← Int.cast_add, h] at hsum
      rw [unpacked_of_pos hx hx₀, unpacked_of_pos hy hy₀]
      exact normalize_eq _ hz hne hsum

end ScriptCore.Binary64
