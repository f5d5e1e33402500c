set_option autoImplicit false

/-!
# Double precision numbers

A number of the language is an IEEE 754 binary64 number, kept as its 64-bit pattern. Everything
that is exact (classes, order, rounding to an integer, conversion from natural numbers and from
fractions) is computed on the pattern with integers. Only the four operations that round their
result go through the `Float` of the core library.

A pattern splits into a sign, the top bit, and a magnitude, the other 63 bits. The magnitude is a
biased exponent (the upper 11 bits) and a fraction (the lower 52 bits). Magnitudes are ordered
like the absolute values they stand for, and those above the magnitude of infinity are the NaNs.

## Main definitions

* `ScriptCore.Binary64` — a number as its pattern.
* `Binary64.ofRatio`, `Binary64.ofNat` — the nearest number to a fraction, ties to even.
* `Binary64.le`, `Binary64.lt`, `Binary64.eqv` — the order and the equality of numbers, in which
  both zeros are the same and a NaN is related to nothing.
* `Binary64.truncate`, `Binary64.trunc`, `Binary64.floor` — rounding to integers.
* `Binary64.add`, `Binary64.sub`, `Binary64.mul`, `Binary64.div` — rounded arithmetic.
* `Binary64.rem`, `Binary64.remEuclid` — remainders.
-/

namespace ScriptCore

/-- An IEEE 754 binary64 number as its bit pattern. -/
structure Binary64 where
  bits : UInt64
deriving DecidableEq, Hashable, Repr

namespace Binary64

/-! ## Fields of a pattern -/

/-- The weight of the sign bit. -/
def signWeight : Nat := 0x8000000000000000

/-- The weight of the lowest bit of the exponent, which is also that of the hidden bit. -/
def hiddenBit : Nat := 0x10000000000000

/-- The biased exponent of infinities and NaNs. -/
def specialExponent : Nat := 2047

/-- The magnitude of infinity. -/
def infiniteMagnitude : Nat := specialExponent * hiddenBit

/-- The number with the given sign and magnitude. -/
def ofSignMagnitude (negative : Bool) (magnitude : Nat) : Binary64 :=
  ⟨UInt64.ofNat ((if negative then signWeight else 0) + magnitude)⟩

/-- Whether the sign bit is set. -/
def isNegative (x : Binary64) : Bool := signWeight ≤ x.bits.toNat

/-- All bits but the sign. -/
def magnitude (x : Binary64) : Nat := x.bits.toNat % signWeight

/-- The biased exponent. -/
def exponentField (x : Binary64) : Nat := x.magnitude / hiddenBit

/-- The fraction, without the hidden bit. -/
def fractionField (x : Binary64) : Nat := x.magnitude % hiddenBit

/-- Whether the number is a NaN, of any sign and payload. -/
def isNaN (x : Binary64) : Bool := infiniteMagnitude < x.magnitude

/-- Whether the number is one of the two infinities. -/
def isInfinite (x : Binary64) : Bool := x.magnitude = infiniteMagnitude

/-- Whether the number is neither infinite nor a NaN. -/
def isFinite (x : Binary64) : Bool := x.magnitude < infiniteMagnitude

/-- Whether the number is one of the two zeros. -/
def isZero (x : Binary64) : Bool := x.magnitude = 0

/-- The significand of a finite number, with the hidden bit: its absolute value is
`significand * 2 ^ scale`. -/
def significand (x : Binary64) : Nat :=
  if x.exponentField = 0 then x.fractionField else hiddenBit + x.fractionField

/-- The power of two belonging to `significand`. -/
def scale (x : Binary64) : Int :=
  (max x.exponentField 1 : Nat) - 1075

/-! ## Constants -/

/-- Positive zero. -/
def zero : Binary64 := ⟨0⟩

/-- One. -/
def one : Binary64 := ⟨0x3ff0000000000000⟩

/-- Positive infinity. -/
def infinity : Binary64 := ⟨0x7ff0000000000000⟩

/-- The quiet NaN that stands for all of them. -/
def nan : Binary64 := ⟨0x7ff8000000000000⟩

/-! ## Order and equality -/

/-- The integer that orders all numbers but the NaNs: the magnitude with its sign. Both zeros
have the rank `0`. -/
def rank (x : Binary64) : Int :=
  if x.isNegative then -(x.magnitude : Int) else x.magnitude

/-- Numeric equality: both zeros are equal, and a NaN equals nothing. -/
def eqv (x y : Binary64) : Bool :=
  !x.isNaN && !y.isNaN && x.rank == y.rank

/-- Numeric order; a NaN is related to nothing. -/
def le (x y : Binary64) : Bool :=
  !x.isNaN && !y.isNaN && x.rank ≤ y.rank

/-- Strict numeric order; a NaN is related to nothing. -/
def lt (x y : Binary64) : Bool :=
  !x.isNaN && !y.isNaN && x.rank < y.rank

/-! ## Conversion from integers and fractions -/

/-- The nearest integer to `num / den`, a tie going to the even neighbour. -/
def roundHalfEven (num den : Nat) : Nat :=
  let q := num / den
  let r := num % den
  if den < 2 * r ∨ (2 * r = den ∧ q % 2 = 1) then q + 1 else q

/-- The exponent `e` with `2 ^ e ≤ num / den < 2 ^ (e + 1)`, for positive `num` and `den`. -/
def floorLog (num den : Nat) : Int :=
  let e : Int := (num.log2 : Int) - den.log2
  -- `e` is right or one too large
  if den * Nat.pow 2 e.toNat ≤ num * Nat.pow 2 (-e).toNat then e else e - 1

/-- The nearest number to `num / den`, ties to even, infinity where the result is too large. The
significand is rounded to 53 bits, or to a multiple of the smallest number below the normal range.
A significand rounded up to `2 ^ 53` carries into the exponent. -/
def ofRatio (negative : Bool) (num den : Nat) : Binary64 :=
  if num = 0 then ofSignMagnitude negative 0
  else
    let e := max (floorLog num den) (-1022)
    let s := e - 52
    let q := roundHalfEven (num * Nat.pow 2 (-s).toNat) (den * Nat.pow 2 s.toNat)
    ofSignMagnitude negative (min ((e + 1022).toNat * hiddenBit + q) infiniteMagnitude)

/-- The nearest number to a natural number. -/
def ofNat (n : Nat) : Binary64 := ofRatio false n 1

/-! ## Rounding to integers -/

/-- The integer part of a finite number, toward zero; `0` for infinities and NaNs. -/
def truncate (x : Binary64) : Int :=
  if x.isFinite then
    let n := x.significand * Nat.pow 2 x.scale.toNat / Nat.pow 2 (-x.scale).toNat
    if x.isNegative then -(n : Int) else n
  else 0

/-- The integer part of a number, cut to the integers from `low` to `high`. A NaN counts as zero. -/
def clamp (low high : Int) (x : Binary64) : Int :=
  if x.isInfinite then if x.isNegative then low else high
  else max low (min x.truncate high)

/-- The integer part as a number, with the sign kept: fraction bits below the unit are cleared. -/
def trunc (x : Binary64) : Binary64 :=
  if x.exponentField < 1023 then ofSignMagnitude x.isNegative 0
  else if 1075 ≤ x.exponentField then x
  else
    let unit := Nat.pow 2 (1075 - x.exponentField)
    ofSignMagnitude x.isNegative (x.magnitude - x.magnitude % unit)

/-- Whether the number is a finite integer. -/
def isIntegral (x : Binary64) : Bool :=
  x.isFinite && x.trunc == x

/-! ## Arithmetic -/

/-- The operand as a core number. -/
def toFloat (x : Binary64) : Float := Float.ofBits x.bits

/-- The number of a core number. -/
def ofFloat (x : Float) : Binary64 := ⟨x.toBits⟩

/-- Rounded sum. -/
def add (x y : Binary64) : Binary64 := ofFloat (x.toFloat + y.toFloat)

/-- Rounded difference. -/
def sub (x y : Binary64) : Binary64 := ofFloat (x.toFloat - y.toFloat)

/-- Rounded product. -/
def mul (x y : Binary64) : Binary64 := ofFloat (x.toFloat * y.toFloat)

/-- Rounded quotient. -/
def div (x y : Binary64) : Binary64 := ofFloat (x.toFloat / y.toFloat)

/-- The number with the opposite sign. -/
def neg (x : Binary64) : Binary64 := ofSignMagnitude (!x.isNegative) x.magnitude

/-- The number without its sign. -/
def abs (x : Binary64) : Binary64 := ofSignMagnitude false x.magnitude

/-- The remainder of the quotient that is rounded toward zero. It has the sign of `x`, and it is a
number without rounding. -/
def rem (x y : Binary64) : Binary64 :=
  if x.isNaN || y.isNaN || x.isInfinite || y.isZero then nan
  else if y.isInfinite then x
  else
    -- both absolute values in units of the smaller scale
    let s := min x.scale y.scale
    let a := x.significand * Nat.pow 2 (x.scale - s).toNat
    let b := y.significand * Nat.pow 2 (y.scale - s).toNat
    ofRatio x.isNegative (a % b * Nat.pow 2 s.toNat) (Nat.pow 2 (-s).toNat)

/-- The remainder that is not negative: a negative one is raised by the absolute value of `y`. -/
def remEuclid (x y : Binary64) : Binary64 :=
  let r := x.rem y
  if r.lt zero then r.add y.abs else r

/-- The largest integer not above the number, as a number. -/
def floor (x : Binary64) : Binary64 :=
  let t := x.trunc
  if x.isNegative && !x.isNaN && t != x then t.sub one else t

/-! ## Small laws -/

@[simp]
theorem eqv_self_iff (x : Binary64) : x.eqv x = true ↔ x.isNaN = false := by
  simp [eqv]

theorem eqv_comm (x y : Binary64) : x.eqv y = y.eqv x := by
  rw [eqv, eqv, Bool.and_comm (!x.isNaN), BEq.comm]

theorem le_total_of_not_isNaN {x y : Binary64} (hx : x.isNaN = false) (hy : y.isNaN = false) :
    x.le y = true ∨ y.le x = true := by
  simp only [le, hx, hy]
  simpa using Int.le_total x.rank y.rank

end Binary64

end ScriptCore
