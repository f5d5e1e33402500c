import ScriptCore.Machine.State
import ScriptCore.Numeral.Reading

set_option autoImplicit false

/-!
# The stack of a frame

The values of the current frame are a list. A positive index counts from its first value, a
negative one from its last; zero and indices outside the frame refer to nothing. The operations
change this list and nothing below it.

## Main definitions

* `ScriptCore.State.slot?`, `ScriptCore.State.valueAt` — the value of an index.
* `ScriptCore.State.push`, `ScriptCore.State.pop`, `ScriptCore.State.remove`,
  `ScriptCore.State.replace`, `ScriptCore.State.insert`, `ScriptCore.State.setTop` — changes.
* `ScriptCore.State.checkNumber`, `ScriptCore.State.checkString`, `ScriptCore.State.checkBytes` —
  arguments of a function.
-/

namespace ScriptCore.State

/-! ## Runs of slots -/

/-- Writes nil into the slots from `lo` up to `hi`. -/
def clear (s : State) (lo hi : Nat) : State :=
  { s with stack := s.stack.fill (hi - lo) lo, broken := s.broken || stackLimit < hi }

/-! ## Indices -/

/-- The slot of an index of the current frame. -/
def slot? (s : State) (index : Int) : Option Nat :=
  if 0 < index then
    let slot := s.base + index.toNat - 1
    if slot < s.top then some slot else none
  else if index = 0 ∨ s.size < index.natAbs then none
  else some (s.top - index.natAbs)

/-- The slot of an index, which must refer to a value. -/
def slot (index : Int) : Action Nat := do
  match (← get).slot? index with
  | some i => return i
  | none => throw (.invalidIndex index)

/-- The value of an index; nil if it refers to none. -/
def valueAt (s : State) (index : Int) : Value :=
  match s.slot? index with
  | some i => s.stack.get i
  | none => .nil

/-! ## Changes -/

/-- Puts a value on top. -/
def push (v : Value) : Action Unit := do
  let s ← get
  if stackLimit ≤ s.top then throw .stackOverflow
  set { s with stack := s.stack.set s.top v, top := s.top + 1 }

/-- Takes the value on top. -/
def pop : Action Value := do
  let s ← get
  if s.top ≤ s.base then throw .stackUnderflow
  let v := s.stack.get (s.top - 1)
  set { s with stack := s.stack.set (s.top - 1) .nil, top := s.top - 1 }
  return v

/-- Takes the value of an index and closes the gap. -/
def remove (index : Int) : Action Value := do
  let i ← slot index
  let s ← get
  let v := s.stack.get i
  let stack := s.stack.moveDown (s.top - (i + 1)) (i + 1) i
  set { s with stack := stack.set (s.top - 1) .nil, top := s.top - 1 }
  return v

/-- Takes the value on top and puts it in place of the value of an index. The index is that before
the value is taken, so that nothing is put in place of the value itself. -/
def replace (index : Int) : Action Unit := do
  let i ← slot index
  let v ← pop
  modify fun s => if i < s.top then { s with stack := s.stack.set i v } else s

/-- Moves the value on top to an index, and the values from there on up by one. -/
def insert (index : Int) : Action Unit := do
  let i ← slot index
  modify fun s =>
    let v := s.stack.get (s.top - 1)
    { s with stack := (s.stack.moveUp (s.top - 1 - i) i).set i v }

/-- Sets the number of values of the frame, or drops the values above a negative index. New values
are nil. -/
def setTop (index : Int) : Action Unit := do
  let s ← get
  let dropped := index.natAbs - 1
  if index < 0 ∧ s.size < dropped then throw (.invalidIndex index)
  let top := if 0 ≤ index then s.base + index.toNat else s.top - dropped
  if stackLimit < top then throw .stackOverflow
  set { s.clear (min top s.top) (max top s.top) with top }

/-! ## Errors of functions -/

/-- An error of the function that is running, with its name in front. -/
def raised (s : State) (message : String) : RuntimeError :=
  match s.currentName? with
  | some name => .custom (name ++ ": " ++ message)
  | none => .custom message

/-- The error for an argument of the function that is running. -/
def badArgument (s : State) (index : Int) (message : String) : RuntimeError :=
  .badArgument index.toNat (s.currentName?.getD "?") message

/-! ## Arguments -/

/-- The number a value stands for: numbers, and text that is a numeral. -/
def coerceNumber (s : State) (v : Value) : Option Binary64 :=
  v.number? <|> (s.text? v).bind Numeral.ofText?

/-- The argument of an index as a number. -/
def checkNumber (index : Int) : Action Binary64 := do
  let s ← get
  let v := s.valueAt index
  match s.coerceNumber v with
  | some x => return x
  | none => throw (s.badArgument index ("number expected, got " ++ v.typeName))

/-- The argument of an index as bytes; a number gives its text. -/
def checkBytes (index : Int) : Action (List UInt8) := do
  let s ← get
  let v := s.valueAt index
  match s.bytes? v, v.number? with
  | some bs, _ => return bs
  | none, some x => return Text.bytes (showNumber x)
  | none, none => throw (s.badArgument index ("string expected, got " ++ v.typeName))

/-- The argument of an index as text. -/
def checkString (index : Int) : Action String := do
  let bs ← checkBytes index
  match Text.ofBytes? bs with
  | some text => return text
  | none => throw ((← get).badArgument index "invalid UTF-8 string")

end ScriptCore.State
