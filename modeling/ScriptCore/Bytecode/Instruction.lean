set_option autoImplicit false

/-!
# Instructions

An instruction is a 32-bit word of four bytes: from the top the code of its operation and the
operands `A`, `B` and `C`.

## Main definitions

* `ScriptCore.OpCode` — the operations and their codes.
* `ScriptCore.Instruction` — the fields of a word, with `encode` and `decode`.
-/

namespace ScriptCore

/-- The operations of the machine. -/
inductive OpCode
  | add | sub | mul | div | mod | idiv | unm
  | le
  | ret | call | fastCall
  | nop
deriving DecidableEq, Repr

namespace OpCode

/-- The code of an operation. -/
def code : OpCode → UInt8
  | add => 10
  | sub => 11
  | mul => 12
  | div => 13
  | mod => 14
  | idiv => 15
  | unm => 16
  | le => 24
  | ret => 54
  | call => 55
  | fastCall => 57
  | nop => 255

/-- All operations. -/
def all : List OpCode :=
  [add, sub, mul, div, mod, idiv, unm, le, ret, call, fastCall, nop]

/-- The operation of a code. -/
def ofCode? (code : UInt8) : Option OpCode :=
  all.find? (·.code = code)

/-- The name of an operation in listings. -/
def name : OpCode → String
  | add => "ADD"
  | sub => "SUB"
  | mul => "MUL"
  | div => "DIV"
  | mod => "MOD"
  | idiv => "IDIV"
  | unm => "UNM"
  | le => "LE"
  | ret => "RETURN"
  | call => "CALL"
  | fastCall => "FASTCALL"
  | nop => "NOP"

theorem ofCode?_code (op : OpCode) : ofCode? op.code = some op := by
  cases op <;> decide

end OpCode

/-- The four bytes of an instruction word. -/
structure Instruction where
  op : UInt8
  a : UInt8
  b : UInt8
  c : UInt8
deriving DecidableEq, Repr

namespace Instruction

/-- The word of an instruction. -/
def encode (i : Instruction) : UInt32 :=
  UInt32.ofNat (((i.op.toNat * 256 + i.a.toNat) * 256 + i.b.toNat) * 256 + i.c.toNat)

/-- The instruction of a word. -/
def decode (word : UInt32) : Instruction where
  op := UInt8.ofNat (word.toNat / 0x1000000)
  a := UInt8.ofNat (word.toNat / 0x10000)
  b := UInt8.ofNat (word.toNat / 0x100)
  c := UInt8.ofNat word.toNat

/-- Reading a word gives back the bytes it was made of. -/
theorem decode_encode (i : Instruction) : decode i.encode = i := by
  obtain ⟨op, a, b, c⟩ := i
  have h1 := op.toNat_lt
  have h2 := a.toNat_lt
  have h3 := b.toNat_lt
  have h4 := c.toNat_lt
  simp only [decode, encode, Instruction.mk.injEq]
  refine ⟨?_, ?_, ?_, ?_⟩ <;> apply UInt8.toNat_inj.1 <;> simp <;> omega

end Instruction

end ScriptCore
