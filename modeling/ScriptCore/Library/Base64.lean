import ScriptCore.Library.Bit32

set_option autoImplicit false

/-!
# Library `base64`

Bytes as text of 64 characters. Three bytes make four characters of six bits each; a last group of
one or two bytes is filled up with `=`. The alphabet and the map from its characters to their six
bits are kept in closure environments: that of `decode` lies inside that of `encode`.

## Main definitions

* `ScriptCore.Base64.encodeBytes` — the characters of bytes.
* `ScriptCore.Base64.encode`, `ScriptCore.Base64.decode` — the functions of the library.
* `ScriptCore.Base64.openLibrary` — the library.
-/

namespace ScriptCore.Base64

open Bit32

/-- The alphabet with the padding character behind it. -/
def alphabet : String := "ABCDEFGHIJKLMNOPQRSTUVWXYZabcdefghijklmnopqrstuvwxyz0123456789+/="

/-- The slot of the alphabet in the environment of `encode`. -/
def alphabetSlot : Nat := 1

/-- The slot of the map in the environment of `decode`. -/
def mapSlot : Nat := 1

/-- The position of the padding character, which is no value of six bits. -/
def padding : Value := .number (Binary64.ofNat 64)

/-- The padding character. -/
def paddingByte : UInt8 := 0x3d

/-! ## Encoding -/

/-- The character of the alphabet at a position. -/
def codeAt (codes : Array UInt8) (position : UInt32) : Except RuntimeError UInt8 :=
  match codes[position.toNat]? with
  | some c => .ok c
  | none =>
    .error (.custom ("base64: code index " ++ toString position.toNat ++ " out of range"))

/-- The four characters of a group of up to three bytes. -/
def encodeGroup (codes : Array UInt8) (a : UInt8) (b c : Option UInt8) :
    Except RuntimeError (List UInt8) := do
  let word (x : UInt8) : UInt32 := x.toUInt32
  let low (x : Option UInt8) (places : Int) : UInt32 :=
    (x.map fun y => rshift (word y) places).getD 0
  let first ← codeAt codes (rshift (word a) 2)
  let second ← codeAt codes (lshift (word a &&& 3) 4 ||| low b 4)
  let third ← match b with
    | some b => codeAt codes (lshift (word b &&& 15) 2 ||| low c 6)
    | none => pure paddingByte
  let fourth ← match c with
    | some c => codeAt codes (word c &&& 63)
    | none => pure paddingByte
  return [first, second, third, fourth]

/-- The characters of bytes, in groups of three. -/
def encodeBytes (codes : Array UInt8) : List UInt8 → Except RuntimeError (List UInt8)
  | [] => .ok []
  | [a] => encodeGroup codes a none none
  | [a, b] => encodeGroup codes a (some b) none
  | a :: b :: c :: rest => do
    let group ← encodeGroup codes a (some b) (some c)
    return group ++ (← encodeBytes codes rest)

/-! ## Functions -/

section Functions

variable {σ : Type}

/-- A variable captured by the function that is running. -/
def captured (level slot : Nat) : Routine σ Value := do
  let env ← Routine.ask (.upvalue 1)
  Routine.ask (.push env)
  Routine.ask (.pushCaptured (-1) level slot)
  let v ← Routine.ask .pop
  let _ ← Routine.ask .pop
  return v

/-- An argument as bytes; none of them if it is absent. -/
def optionalBytes (index : Int) : Routine σ (List UInt8) := do
  let v ← Routine.ask (.valueAt index)
  if v.isNil then return []
  Routine.ask (.checkBytes index)

/-- Returns one string. -/
def giveBytes (content : List UInt8) : Routine σ Nat := do
  give (← Routine.ask (.intern content))

/-- The characters of the first argument. -/
def encode : Routine σ Nat := do
  let input ← optionalBytes 1
  let codes ← captured 0 alphabetSlot
  match ← Routine.ask (.bytes codes) with
  | none => Routine.raise "alphabet missing"
  | some codes =>
    Routine.ask (.setTop 0)
    giveBytes (← MonadExcept.ofExcept (encodeBytes codes.toArray input))

/-- The six bits of a character, or the padding behind the end of the text. -/
def sextet (map : Value) : Option UInt8 → Routine σ Value
  | none => return padding
  | some c => do
    let v ← Routine.ask (.rawGet map (.number (Binary64.ofNat c.toNat)))
    if v.isNil then Routine.raise ("invalid character '" ++ (Char.ofNat c.toNat).toString ++ "'")
    return v

/-- The integer part of a number, cut to the words; zero for what is no number. -/
def toWord (x : Option Binary64) : UInt32 :=
  match x with
  | none => 0
  | some x =>
    if x.isInfinite then if x.isNegative then 0 else allOnes
    else UInt32.ofNat (min x.truncate.toNat allOnes.toNat)

/-- The bits of a value. -/
def bitsOf (v : Value) : Routine σ UInt32 :=
  return toWord (← Routine.ask (.coerceNumber v))

/-- Whether a value is less than the padding. -/
def isData (v : Value) : Routine σ Bool :=
  return !(← Routine.invoke (.lessEqual padding v))

/-- A word as a byte. -/
def toByte (r : UInt32) : Routine σ UInt8 :=
  if r.toNat < 256 then return UInt8.ofNat r.toNat
  else Routine.raise ("byte value " ++ toString r.toNat ++ " out of range")

/-- The bytes of a group of up to four characters. -/
def decodeGroup (map : Value) (c₁ c₂ c₃ c₄ : Option UInt8) : Routine σ (List UInt8) := do
  let a ← sextet map c₁
  let b ← sextet map c₂
  let c ← sextet map c₃
  let d ← sextet map c₄
  -- every group has one whole byte at least
  if !(← isData a) then Routine.raise "invalid padding"
  if !(← isData b) then Routine.raise "invalid padding"
  let wa ← bitsOf a
  let wb ← bitsOf b
  let first ← toByte (lshift wa 2 ||| rshift wb 4)
  if !(← isData c) then return [first]
  let wc ← bitsOf c
  let second ← toByte (lshift (wb &&& 0xf) 4 ||| rshift wc 2)
  if !(← isData d) then return [first, second]
  let wd ← bitsOf d
  let third ← toByte (lshift (wc &&& 3) 6 ||| wd)
  return [first, second, third]

/-- The bytes of a text, in groups of four characters. -/
def decodeBytes (map : Value) : List UInt8 → Routine σ (List UInt8)
  | [] => return []
  | [a] => decodeGroup map (some a) none none none
  | [a, b] => decodeGroup map (some a) (some b) none none
  | [a, b, c] => decodeGroup map (some a) (some b) (some c) none
  | a :: b :: c :: d :: rest => do
    let group ← decodeGroup map (some a) (some b) (some c) (some d)
    return group ++ (← decodeBytes map rest)

/-- The bytes of the first argument. -/
def decode : Routine σ Nat := do
  let text ← optionalBytes 1
  let map ← captured 0 mapSlot
  Routine.ask (.setTop 0)
  giveBytes (← decodeBytes map text)

/-- Maps each character, from the position `i` of the first on, to the position before its own
count. -/
def fillMap (map : Value) : Nat → List UInt8 → Routine σ Unit
  | _, [] => return ()
  | i, c :: rest => do
    let position := Value.number (Binary64.ofNat (i + 1))
    let v ← Routine.invoke (.arith .sub position (.number Binary64.one))
    Routine.ask (.rawSet map (.number (Binary64.ofNat c.toNat)) v)
    fillMap map (i + 1) rest

/-- Registers the library. Its table is left on the stack. -/
def openLibrary : Routine σ Value := do
  let size : Int := (← Routine.frameSize : Nat)
  -- the outermost environment, with the alphabet
  Routine.ask (.push .nil)
  Routine.ask (.newClosureEnv (-1))
  let _ ← Routine.ask (.remove (-2))
  let outer := size + 1
  let codes ← Routine.intern alphabet
  Routine.ask (.push codes)
  Routine.ask (.storeCaptured outer 0 alphabetSlot)
  let encodeEnv ← Routine.ask (.valueAt outer)
  let encode ← Routine.define "base64.encode" encode.program #[encodeEnv]
  -- the environment inside, with the map
  Routine.ask (.newClosureEnv outer)
  let inner := size + 2
  let map ← Routine.ask (.newTable alphabet.utf8ByteSize)
  fillMap map 0 (Text.bytes alphabet)
  Routine.ask (.push map)
  Routine.ask (.storeCaptured inner 0 mapSlot)
  let decodeEnv ← Routine.ask (.valueAt inner)
  let decode ← Routine.define "base64.decode" decode.program #[decodeEnv]
  Routine.ask (.setTop size)
  let table ← Routine.ask (.registerLibrary "base64" 2)
  let key ← Routine.intern "encode"
  Routine.ask (.rawSet table key encode)
  let key ← Routine.intern "decode"
  Routine.ask (.rawSet table key decode)
  return table

end Functions

end ScriptCore.Base64
