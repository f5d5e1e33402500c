import ScriptCore.Numeral.Binary64

set_option autoImplicit false

/-!
# Shortest decimal form

A finite number is printed with the fewest decimal digits that read back as the same number. The
reals that round to a number form an interval around it, whose ends belong to it if the
significand is even. The digits are found on the coarsest grid of multiples of a power of ten that
has a point in this interval; of two such points the nearer is taken, and the upper one in a tie.

## Main definitions

* `ScriptCore.Shortest.Interval` — the reals that round to a number.
* `ScriptCore.Shortest.decimal` — the digits and their power of ten.
* `ScriptCore.Binary64.plain` — the positional form, without an exponent.
-/

namespace ScriptCore.Shortest

/-- A positive number `value * 2 ^ scale` with the distances, in the same unit, to the ends of the
interval of reals that round to it. -/
structure Interval where
  value : Nat
  below : Nat
  above : Nat
  closed : Bool
  scale : Int

/-- The reals that round to the absolute value of a finite number that is not zero. The unit is a
quarter of the spacing above the number; the spacing below a power of two is half as large. -/
def Interval.of (x : Binary64) : Interval where
  value := 4 * x.significand
  below := if x.fractionField = 0 ∧ 1 < x.exponentField then 1 else 2
  above := 2
  closed := x.significand % 2 = 0
  scale := x.scale - 2

/-- Whether the multiple `p` of `10 ^ g` lies in the interval. -/
def Interval.contains (i : Interval) (p : Nat) (g : Int) : Bool :=
  -- both sides are multiplied by the denominators of `2 ^ scale` and `10 ^ g`
  let point := p * Nat.pow 10 g.toNat * Nat.pow 2 (-i.scale).toNat
  let unit := Nat.pow 2 i.scale.toNat * Nat.pow 10 (-g).toNat
  let low := (i.value - i.below) * unit
  let high := (i.value + i.above) * unit
  if i.closed then low ≤ point && point ≤ high else low < point && point < high

/-- The point of the grid of multiples of `10 ^ g` that stands for the interval, if it has one. -/
def Interval.gridPoint? (i : Interval) (g : Int) : Option Nat :=
  let num := i.value * Nat.pow 2 i.scale.toNat * Nat.pow 10 (-g).toNat
  let den := Nat.pow 2 (-i.scale).toNat * Nat.pow 10 g.toNat
  let p := num / den
  let lower := i.contains p g
  let upper := i.contains (p + 1) g
  if lower && upper then some (if 2 * (num % den) < den then p else p + 1)
  else if lower then some p
  else if upper then some (p + 1)
  else none

/-- The first grid with a point in the interval, from the power `g` of ten downward. -/
def Interval.search (i : Interval) : Nat → Int → Nat × Int
  | 0, g => (i.value, g)
  | n + 1, g =>
    match i.gridPoint? g with
    | some p => (p, g)
    | none => i.search n (g - 1)

/-- The fewest digits, as a number, and their power of ten. The search starts at a power of ten
above the number, and seventeen digits always suffice. -/
def decimal (x : Binary64) : Nat × Int :=
  let i := Interval.of x
  let top := ((i.value.log2 : Int) + i.scale + 1) * 30103 / 100000 + 2
  i.search 24 top

/-- The digits `p` with their unit at `10 ^ g`, in positional notation. -/
def positional (p : Nat) (g : Int) : String :=
  let ds := (toString p).toList
  if 0 ≤ g then String.ofList (ds ++ List.replicate g.toNat '0')
  else
    let places := (-g).toNat
    if places < ds.length then
      String.ofList (ds.take (ds.length - places) ++ '.' :: ds.drop (ds.length - places))
    else String.ofList ('0' :: '.' :: List.replicate (places - ds.length) '0' ++ ds)

end ScriptCore.Shortest

namespace ScriptCore

/-- The shortest decimal form that reads back, always positional; `inf` and `NaN` for the numbers
without digits. The sign of a zero is shown. -/
def Binary64.plain (x : Binary64) : String :=
  if x.isNaN then "NaN"
  else
    let sign := if x.isNegative then "-" else ""
    if x.isInfinite then sign ++ "inf"
    else if x.isZero then sign ++ "0"
    else
      let (p, g) := Shortest.decimal x
      sign ++ Shortest.positional p g

end ScriptCore
