import ScriptCore.Numeral.Binary64
import ScriptCore.Text.Blank

set_option autoImplicit false

/-!
# Reading numerals

A numeral is decimal, with an optional point and exponent, or hexadecimal after `0x`. Two readers
are built from these: one for the literals of a source text, in which underscores may group the
digits, and one for text that stands where a number is wanted.

## Main definitions

* `ScriptCore.Numeral.decimal?` — digits with at most one point and an optional exponent.
* `ScriptCore.Numeral.hexadecimal?` — hexadecimal digits whose value fits in 64 bits.
* `ScriptCore.Numeral.literal?` — the value of a literal.
* `ScriptCore.Numeral.ofText?` — the value of a text, with blanks at its ends and one sign allowed.
-/

namespace ScriptCore.Numeral

/-! ## Digits -/

/-- Whether `c` is one of `0` to `9`. -/
def isDecimal (c : Char) : Bool := '0' ≤ c && c ≤ '9'

/-- Whether `c` is a hexadecimal digit of either case. -/
def isHexadecimal (c : Char) : Bool :=
  isDecimal c || ('a' ≤ c && c ≤ 'f') || ('A' ≤ c && c ≤ 'F')

/-- The value of a hexadecimal digit; `0` for other characters. -/
def digitValue (c : Char) : Nat :=
  if isDecimal c then c.toNat - '0'.toNat
  else if 'a' ≤ c && c ≤ 'f' then c.toNat - 'a'.toNat + 10
  else if 'A' ≤ c && c ≤ 'F' then c.toNat - 'A'.toNat + 10
  else 0

/-- The number written by the digits `cs` in the given base, the first digit weighing most. -/
def ofDigits (base : Nat) (cs : List Char) : Nat :=
  cs.foldl (fun n c => base * n + digitValue c) 0

/-! ## Decimal numerals -/

/-- The nearest number to `digits * 10 ^ exponent`. Exponents far outside the range of numbers
are settled without computing the power: at most `digits.length` places are in the digits. -/
def ofDecimal (digits : List Char) (exponent : Int) : Binary64 :=
  let n := ofDigits 10 digits
  if n = 0 then Binary64.zero
  else if 400 < exponent then Binary64.infinity
  else if exponent + digits.length < -400 then Binary64.zero
  else Binary64.ofRatio false (n * Nat.pow 10 exponent.toNat) (Nat.pow 10 (-exponent).toNat)

/-- An optional sign in front of `cs`: whether it is a minus, and what follows it. -/
def splitSign : List Char → Bool × List Char
  | '-' :: cs => (true, cs)
  | '+' :: cs => (false, cs)
  | cs => (false, cs)

/-- The exponent at the end of a decimal numeral: nothing, or `e` with an optional sign and at
least one digit. -/
def exponent? : List Char → Option Int
  | [] => some 0
  | c :: cs =>
    if c = 'e' ∨ c = 'E' then
      let (negative, ds) := splitSign cs
      if ds ≠ [] ∧ ds.all isDecimal then
        let e : Int := ofDigits 10 ds
        some (if negative then -e else e)
      else none
    else none

/-- An unsigned decimal numeral: digits with at most one point, at least one digit, and an optional
exponent. -/
def decimal? (cs : List Char) : Option Binary64 :=
  let (whole, rest) := cs.span isDecimal
  let (fraction, rest) := match rest with
    | '.' :: r => r.span isDecimal
    | r => ([], r)
  if whole = [] ∧ fraction = [] then none
  else (exponent? rest).map fun e => ofDecimal (whole ++ fraction) (e - fraction.length)

/-! ## Hexadecimal numerals -/

/-- At least one hexadecimal digit, after an optional plus sign, with a value below `2 ^ 64`. -/
def hexadecimal? (cs : List Char) : Option Nat :=
  let ds := match cs with
    | '+' :: r => r
    | r => r
  let n := ofDigits 16 ds
  if ds ≠ [] ∧ ds.all isHexadecimal ∧ n < 0x10000000000000000 then some n else none

/-- What follows `0x` or `0X`. -/
def stripHexMark? : List Char → Option (List Char)
  | '0' :: 'x' :: cs => some cs
  | '0' :: 'X' :: cs => some cs
  | _ => none

/-! ## The two readers -/

/-- The names of the numbers that have no digits, in lower case. -/
def named? (cs : List Char) : Option Binary64 :=
  let name := String.ofList (cs.map Char.toLower)
  if name = "inf" ∨ name = "infinity" then some Binary64.infinity
  else if name = "nan" then some Binary64.nan
  else none

/-- The number `x`, negated if asked. -/
def withSign (negative : Bool) (x : Binary64) : Binary64 :=
  if negative then x.neg else x

/-- The value of a literal: underscores are left out, `0x` starts a hexadecimal numeral, and all
else is a decimal numeral or a named number with an optional sign. -/
def literal? (text : String) : Option Binary64 :=
  let cs := text.toList.filter (· != '_')
  match stripHexMark? cs with
  | some ds => (hexadecimal? ds).map Binary64.ofNat
  | none =>
    let (negative, body) := splitSign cs
    ((decimal? body) <|> (named? body)).map (withSign negative)

/-- The value of a text where a number is wanted: blanks at both ends and one sign are allowed,
and the body is a hexadecimal numeral after `0x` or an unsigned decimal one. -/
def ofText? (text : String) : Option Binary64 :=
  let (negative, body) := splitSign (Text.trim text.toList)
  match stripHexMark? body with
  | some ds => (hexadecimal? ds).map fun n => withSign negative (Binary64.ofNat n)
  | none => (decimal? body).map (withSign negative)

end ScriptCore.Numeral
