import ScriptCore.Machine.Call
import ScriptCore.Bytecode.Instruction

set_option autoImplicit false

/-!
# Operators

Arithmetic works on numbers and on text that is a numeral. Other operands may have a handler: a
function under the name of the operator's event in the metatable of the first operand that has
one. Comparison works on two numbers or on two strings, and asks handlers for everything else.

## Main definitions

* `ScriptCore.ArithOp.apply`, `ScriptCore.ArithOp.event` — operators on numbers, and their events.
* `ScriptCore.Operand`, `ScriptCore.State.classify` — what an operand is to an operator.
* `ScriptCore.MachineM.arith`, `ScriptCore.MachineM.negate`, `ScriptCore.MachineM.lessEqual` — the
  operators on values.
* `ScriptCore.MachineM.instruction` — the operators on registers.
-/

namespace ScriptCore

namespace ArithOp

/-- The key of the handler in a metatable. -/
def event : ArithOp → String
  | add => "__add"
  | sub => "__sub"
  | mul => "__mul"
  | div => "__div"
  | mod => "__mod"
  | idiv => "__idiv"

/-- The operator on numbers. The remainder has the sign of the divisor; the integer quotient is
rounded toward zero. -/
def apply (op : ArithOp) (x y : Binary64) : Binary64 :=
  match op with
  | add => x.add y
  | sub => x.sub y
  | mul => x.mul y
  | div => x.div y
  | mod => x.sub ((x.div y).floor.mul y)
  | idiv => (x.div y).trunc

/-- The operator of an instruction. -/
def ofOpCode? : OpCode → Option ArithOp
  | .add => some add
  | .sub => some sub
  | .mul => some mul
  | .div => some div
  | .mod => some mod
  | .idiv => some idiv
  | _ => none

end ArithOp

/-- What an operand is to an operator. -/
inductive Operand
  | number (x : Binary64)
  /-- A string, by its handle. -/
  | text (handle : Nat)
  /-- A value with a metatable, by the handle of that. -/
  | carrying (metatable : Nat)
  | other
deriving DecidableEq, Repr

/-- Whether one sequence of bytes is, in the order of dictionaries, not behind another. -/
def bytesLessEqual : List UInt8 → List UInt8 → Bool
  | [], _ => true
  | _ :: _, [] => false
  | a :: as, b :: bs => a < b || (a = b && bytesLessEqual as bs)

namespace State

/-- What a value is to an operator. -/
def classify (s : State) (v : Value) : Operand :=
  match v.number?, v.string?, s.heap.metatableOf v with
  | some x, _, _ => .number x
  | none, some h, _ => .text h
  | none, none, some mt => .carrying mt
  | none, none, none => .other

/-- The handler a value has for an event. -/
def handler? (s : State) (event : String) (v : Value) : Option Value :=
  match s.classify v with
  | .carrying _ =>
    let h := s.heap.metafield v event
    if h.isNil then none else some h
  | _ => none

/-- The handler of the first operand that has one for an event. -/
def operatorHandler? (s : State) (event : String) (operands : List Value) : Option Value :=
  operands.findSome? (s.handler? event)

/-- The comparison of two operands that need no handler. -/
def compare? (s : State) (a b : Value) : Option (Except RuntimeError Bool) :=
  match s.classify a, s.classify b with
  | .number x, .number y => some (.ok (x.le y))
  | .text x, .text y =>
    if x = y then some (.ok true)
    else
      match s.heap.strings.get? x, s.heap.strings.get? y with
      | some l, some r => some (.ok (bytesLessEqual l r))
      | _, _ => some (.error .compare)
  | _, _ => none

/-- The value of a register, counted from the slot `base`. -/
def register (base i : Nat) : Action Value := do
  if stackLimit ≤ base + i then throw .stackOverflow
  return (← get).stack.get (base + i)

/-- Sets a register, counted from the slot `base`. -/
def setRegister (base i : Nat) (v : Value) : Action Unit := do
  if stackLimit ≤ base + i then throw .stackOverflow
  modify fun s => { s with stack := s.stack.set (base + i) v }

/-- The number of registers of a frame, which handlers leave alone. -/
def registerWindow : Nat := 256

end State

namespace MachineM

variable {σ : Type} (enter : HostProgram σ → MachineM σ Nat)

/-- Pushes a handler with its arguments, calls it and takes its first result. -/
def pushAndCall (handler : Value) (args : List Value) : MachineM σ Value := do
  lift (State.push handler)
  args.forM fun v => lift (State.push v)
  call enter args.length 1
  lift State.pop

/-- The first result of a handler. The stack is as before, also after an error. -/
def callHandler (handler : Value) (args : List Value) : MachineM σ Value := do
  let top := (← get).state.top
  let r ← attempt (pushAndCall enter handler args)
  modifyState fun s => s.unwind top
  MonadExcept.ofExcept r

/-- An arithmetic operator on values. -/
def arith (op : ArithOp) (a b : Value) : MachineM σ Value := do
  let s := (← get).state
  match s.coerceNumber a, s.coerceNumber b with
  | some x, some y => return .number (op.apply x y)
  | _, _ =>
    match s.operatorHandler? op.event [a, b] with
    | some h => callHandler enter h [a, b]
    | none => throw .arithmetic

/-- The negation of a value. -/
def negate (a : Value) : MachineM σ Value := do
  let s := (← get).state
  match s.coerceNumber a with
  | some x => return .number x.neg
  | none =>
    match s.operatorHandler? "__unm" [a] with
    | some h => callHandler enter h [a]
    | none => throw .arithmetic

/-- Whether a value is at most another one. Without a handler for this, it is asked whether the
second is less than the first. -/
def lessEqual (a b : Value) : MachineM σ Bool := do
  let s := (← get).state
  match s.compare? a b, s.operatorHandler? "__le" [a, b], s.operatorHandler? "__lt" [a, b] with
  | some r, _, _ => MonadExcept.ofExcept r
  | none, some h, _ => return !(← callHandler enter h [a, b]).isFalsey
  | none, none, some h => return (← callHandler enter h [b, a]).isFalsey
  | none, none, none => throw .compare

/-- Pushes the result of an arithmetic operator on the values of two indices. -/
def arithAt (op : ArithOp) (a b : Int) : MachineM σ Unit := do
  let (va, vb) := (fun s : State => (s.valueAt a, s.valueAt b)) (← get).state
  let r ← arith enter op va vb
  lift (State.push r)

/-- Pushes the negation of the value of an index. -/
def negateAt (a : Int) : MachineM σ Unit := do
  let va := (← get).state.valueAt a
  let r ← negate enter va
  lift (State.push r)

/-- Whether the value of an index is at most that of another one. -/
def lessEqualAt (a b : Int) : MachineM σ Bool := do
  let (va, vb) := (fun s : State => (s.valueAt a, s.valueAt b)) (← get).state
  lessEqual enter va vb

/-- The result of the operation of an instruction on the values of its registers. -/
def operation (code : UInt8) (vb vc : Value) : MachineM σ Value :=
  match OpCode.ofCode? code with
  | some .unm => negate enter vb
  | some .le => return .bool (← lessEqual enter vb vc)
  | op =>
    match op.bind ArithOp.ofOpCode? with
    | some op => arith enter op vb vc
    | none => throw (.invalidOpcode code)

/-- Runs an arithmetic instruction on the registers from the slot `base` on. While a handler runs,
the top of the stack is above all registers. -/
def instruction (code : UInt8) (word : UInt32) (base : Nat) : MachineM σ Unit := do
  let i := Instruction.decode word
  let vb ← lift (State.register base i.b.toNat)
  let vc ← lift (State.register base i.c.toNat)
  let saved := (← get).state.top
  modifyState fun s => { s with top := max s.top (base + State.registerWindow) }
  let r ← attempt (operation enter code vb vc)
  modifyState fun s => { s with top := saved }
  lift (State.setRegister base i.a.toNat (← MonadExcept.ofExcept r))

/-- What the machine does on an invocation. -/
def invoke : (i : Invocation) → MachineM σ i.Reply
  | .call nargs nresults => call enter nargs nresults
  | .protectedCall nargs nresults => protectedCall enter nargs nresults
  | .arith op a b => arith enter op a b
  | .negate a => negate enter a
  | .lessEqual a b => lessEqual enter a b
  | .arithAt op a b => arithAt enter op a b
  | .negateAt a => negateAt enter a
  | .lessEqualAt a b => lessEqualAt enter a b
  | .instruction code word base => instruction enter code word base

end MachineM

end ScriptCore
