import ScriptCore.Machine.Run

set_option autoImplicit false

/-!
# Library `bit32`

Bitwise operations on unsigned integers of 32 bits. Operands are truncated toward zero and taken
modulo `2 ^ 32`. Shifts by 32 places or more move all bits out.

## Main definitions

* `ScriptCore.Bit32.shift?`, `ScriptCore.Bit32.arshift?` — shifts, made of those of the machine.
* `ScriptCore.Bit32.shift`, `ScriptCore.Bit32.arshift` — shifts by integers.
* `ScriptCore.Bit32.toUnsigned` — the operand of a number.
* `ScriptCore.Bit32.openLibrary` — the library.
-/

namespace ScriptCore.Bit32

/-! ## Words -/

/-- The number of bits of a word. -/
def wordBits : Nat := 32

/-- The word with all bits set. -/
def allOnes : UInt32 := 0xffffffff

/-- The word with only the top bit set. -/
def topBit : UInt32 := 0x80000000

/-! ### Shifts of the machine

The amount of a shift is an integer of 64 bits. The machine shifts by amounts from zero to one less
than the width of a word, and it negates all amounts but the smallest. -/

/-- The word shifted to the left, by an amount that the machine shifts by. -/
def shiftLeft? (r : UInt32) (i : Int64) : Option UInt32 :=
  if 0 ≤ i.toInt ∧ i.toInt < wordBits then some (r <<< UInt32.ofNat i.toInt.toNat) else none

/-- The word shifted to the right, by an amount that the machine shifts by. -/
def shiftRight? (r : UInt32) (i : Int64) : Option UInt32 :=
  if 0 ≤ i.toInt ∧ i.toInt < wordBits then some (r >>> UInt32.ofNat i.toInt.toNat) else none

/-- The opposite amount. The smallest amount has none. -/
def opposite? (i : Int64) : Option Int64 :=
  if i = Int64.minValue then none else some (-i)

/-- The opposite amount, the largest one for the smallest. -/
def opposite (i : Int64) : Int64 := (opposite? i).getD Int64.maxValue

/-- The word shifted to the left, or to the right by a negative amount. -/
def shift? (r : UInt32) (i : Int64) : Option UInt32 :=
  if wordBits ≤ i.toInt.natAbs then some 0
  else if i < 0 then do shiftRight? r (← opposite? i)
  else shiftLeft? r i

/-- The word shifted to the left. -/
def lshift? (r : UInt32) (i : Int64) : Option UInt32 := shift? r i

/-- The word shifted to the right. -/
def rshift? (r : UInt32) (i : Int64) : Option UInt32 := shift? r (opposite i)

/-- The word shifted to the right, with its top bit copied into the places that become free. -/
def arshift? (r : UInt32) (i : Int64) : Option UInt32 :=
  if i < 0 ∨ r &&& topBit = 0 then rshift? r i
  else if wordBits ≤ i.toInt then some allOnes
  else do return (← shiftRight? r i) ||| ~~~(← shiftRight? allOnes i)

/-! ### Shifts by integers

An integer stands for the amount with the same lower 64 bits. -/

/-- The word shifted to the left, or to the right by a negative integer. -/
def shift (r : UInt32) (i : Int) : UInt32 := (shift? r (Int64.ofInt i)).getD 0

/-- The word shifted to the left. -/
def lshift (r : UInt32) (i : Int) : UInt32 := (lshift? r (Int64.ofInt i)).getD 0

/-- The word shifted to the right. -/
def rshift (r : UInt32) (i : Int) : UInt32 := (rshift? r (Int64.ofInt i)).getD 0

/-- The word shifted to the right, with its top bit kept. -/
def arshift (r : UInt32) (i : Int) : UInt32 := (arshift? r (Int64.ofInt i)).getD 0

/-! ### Operands -/

/-- The number of words, `2 ^ 32`. -/
def wordCount : Binary64 := ⟨0x41f0000000000000⟩

/-- The word of a number: its integer part, cut to the range of words. -/
def toWord (x : Binary64) : UInt32 := UInt32.ofNat (x.clamp 0 allOnes.toNat).toNat

/-- The operand of a number: its integer part modulo `2 ^ 32`. -/
def toUnsigned (x : Binary64) : UInt32 := toWord (x.trunc.remEuclid wordCount)

/-- The largest integer of 64 bits; the smallest one is below its opposite. -/
def maxAmount : Int := 0x7fffffffffffffff

/-- The amount of a number: its integer part, cut to the integers of 64 bits. -/
def toAmount (x : Binary64) : Int := x.clamp (-maxAmount - 1) maxAmount

/-- The number of a word. -/
def toNumber (r : UInt32) : Binary64 := Binary64.ofNat r.toNat

/-! ## Functions -/

section Functions

variable {σ : Type}

/-- An argument as a word. -/
def checkUnsigned (index : Int) : Routine σ UInt32 :=
  return toUnsigned (← Routine.ask (.checkNumber index))

/-- An argument as the amount of a shift. -/
def checkAmount (index : Int) : Routine σ Int :=
  return toAmount (← Routine.ask (.checkNumber index))

/-- Returns one value. -/
def give (v : Value) : Routine σ Nat := do
  Routine.ask (.push v)
  return 1

/-- Returns one word. -/
def giveWord (r : UInt32) : Routine σ Nat := give (.number (toNumber r))

/-- All arguments, combined from the first to the last. -/
def foldArgs (init : UInt32) (op : UInt32 → UInt32 → UInt32) : Routine σ UInt32 := do
  let n ← Routine.frameSize
  (List.range' 1 n).foldlM (fun r (i : Nat) => return op r (← checkUnsigned i)) init

/-- A shift of the first argument by the second. -/
def shiftArgs (op : UInt32 → Int → UInt32) : Routine σ Nat := do
  let r ← checkUnsigned 1
  let i ← checkAmount 2
  giveWord (op r i)

/-- The functions of the library by their keys. -/
def functions : List (String × Routine σ Nat) :=
  [("arshift", shiftArgs arshift),
   ("band", do giveWord (← foldArgs allOnes (· &&& ·))),
   ("bnot", do giveWord (~~~(← checkUnsigned 1))),
   ("bor", do giveWord (← foldArgs 0 (· ||| ·))),
   ("btest", do give (.bool ((← foldArgs allOnes (· &&& ·)) != 0))),
   ("bxor", do giveWord (← foldArgs 0 (· ^^^ ·))),
   ("lshift", shiftArgs lshift),
   ("rshift", shiftArgs rshift)]

/-- Registers the library. Its table is left on the stack. -/
def openLibrary : Routine σ Value :=
  Routine.defineLibrary "bit32" (functions.map fun (key, f) => (key, f.program))

end Functions

end ScriptCore.Bit32
