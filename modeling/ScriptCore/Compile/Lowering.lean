import ScriptCore.Source.Scope
import ScriptCore.Builtin.Callee
import ScriptCore.Bytecode.Instruction

set_option autoImplicit false

/-!
# From programs to calls

The compiler emits the calls of a program, each behind the calls in its callee and its arguments.
A call to a function with a fast path gets an instruction that tries this path in front of the
ordinary one. The function of a call sits in a register, the receiver of a method call and the
arguments in the registers behind it; a call inside an argument uses the register of the argument.

## Main definitions

* `ScriptCore.CallSite`, `ScriptCore.CompiledUnit` — the result of a compilation.
* `ScriptCore.Compiler` — the options and the state of a compiler.
* `ScriptCore.Compiler.emitCall`, `ScriptCore.Compiler.loweringFor` — one call.
* `ScriptCore.Compiler.compile` — a source text.
-/

namespace ScriptCore

/-- Why a source text is not compiled. -/
inductive CompileError
  /-- The text is no program. -/
  | parse (error : ParseError)
  /-- A call needs more registers than a frame has. -/
  | registerOverflow (line : Nat)
deriving DecidableEq, Repr

/-- The wording of a compile error. -/
def CompileError.message : CompileError → String
  | parse e => e.message
  | registerOverflow line => "register overflow at line " ++ toString line

/-- How a call is emitted. -/
inductive Lowering
  /-- The fast path of this function first, then the ordinary call. -/
  | fast (f : FastFunction)
  /-- The ordinary call alone. -/
  | generic
deriving DecidableEq, Repr

/-- The function whose fast path a call tries. -/
def Lowering.fast? : Lowering → Option FastFunction
  | fast f => some f
  | generic => none

/-- A call of a program: its line, what its callee denotes, and how it is emitted. -/
structure CallSite where
  line : Nat
  builtin : Builtin
  lowering : Lowering
deriving DecidableEq, Repr

/-- A compiled program: its instruction words, and its calls in the order they are emitted. -/
structure CompiledUnit where
  bytecode : Array UInt32
  callSites : Array CallSite

/-- The functions whose fast paths a compiled program tries, in order. -/
def CompiledUnit.fastCalls (u : CompiledUnit) : List FastFunction :=
  u.callSites.toList.filterMap (·.lowering.fast?)

/-- How many results of a call are wanted. -/
inductive Want
  | none
  | one
  | all
deriving DecidableEq, Repr

/-- The operand that asks for results: their number plus one, and zero for all of them. -/
def Want.operand : Want → UInt8
  | none => 1
  | one => 2
  | all => 0

/-- A compiler: its options, the words and calls emitted so far, and the next free register. -/
structure Compiler where
  options : CompileOptions
  bytecode : Array UInt32
  callSites : Array CallSite
  register : Nat

namespace Compiler

/-- The highest register of a frame. -/
def maxRegister : Nat := 255

/-- A compiler that has emitted nothing. -/
def new (options : CompileOptions) : Compiler := ⟨options, #[], #[], 0⟩

/-- The compiler with nothing emitted and all registers free. -/
def clear (c : Compiler) : Compiler := new c.options

/-- The compiler with one more instruction. -/
def emit (c : Compiler) (op : OpCode) (a b d : UInt8) : Compiler :=
  { c with bytecode := c.bytecode.push (Instruction.encode ⟨op.code, a, b, d⟩) }

/-- How a call is emitted whose callee denotes `builtin`. A method call takes no fast path. -/
def loweringFor (c : Compiler) (builtin : Builtin) (isMethod : Bool) : Lowering :=
  if isMethod || !c.options.fastCalls then .generic
  else
    match builtin.function? c.options with
    | some f => .fast f
    | none => .generic

/-- The compiler with the instructions of one call: the function is in register `func`, `nargs` is
the number of values passed, with `none` for all up to the top of the stack. -/
def emitCall (c : Compiler) (lowering : Lowering) (func : UInt8) (nargs : Option UInt8)
    (results : UInt8) : Compiler :=
  let c := match lowering with
    | .fast f => c.emit .fastCall f.id 0 0
    | .generic => c
  let b := match nargs with
    | some n => n + 1
    | none => 0
  c.emit .call func b results

end Compiler

/-- Computations of a compiler; what is emitted stays when they fail. -/
abbrev Emitting := ExceptT CompileError (StateM Compiler)

namespace Emitting

/-- The next free register. -/
def register : Emitting Nat := return (← get).register

/-- Sets the next free register. -/
def setRegister (r : Nat) : Emitting Unit := modify fun c => { c with register := r }

/-- Runs a computation and gives back the registers it has taken. -/
def keepingRegister (x : Emitting Unit) : Emitting Unit := do
  let saved ← register
  x
  setRegister saved

/-- Emits a call whose function is in register `func`, and records it. -/
def call (site : CallSite) (func : Nat) (nargs : Option Nat) (want : Want) : Emitting Unit :=
  modify fun c =>
    let c := c.emitCall site.lowering (UInt8.ofNat func) (nargs.map UInt8.ofNat) want.operand
    { c with callSites := c.callSites.push site }

end Emitting

open Emitting

section Lowering

variable (facts : Facts)

mutual

/-- Emits the calls of an expression of which `want` results are wanted. -/
def lowerExpr : BoundExpr → Want → Emitting Unit
  | .call callee args isMethod pos, want => do
    let func ← register
    -- a method call passes its receiver too
    let receiver := if isMethod then 1 else 0
    let nargs := args.length + receiver
    if func + nargs > Compiler.maxRegister ∨ nargs ≥ Compiler.maxRegister then
      throw (.registerOverflow pos.line)
    lowerExpr callee .one
    lowerArgs (func + 1 + receiver) args
    setRegister func
    let passed := if (args.getLast?.map Expr.isMultiValue).getD false then none else some nargs
    let builtin := facts.resolve callee
    let lowering := (← get).loweringFor builtin isMethod
    Emitting.call ⟨pos.line, builtin, lowering⟩ func passed want
  | .member object _ _, _ => lowerExpr object .one
  | .index object key _, _ => do
    lowerExpr object .one
    lowerExpr key .one
  | .function f, _ => lowerFunction f
  | .table items _, _ => lowerItems items
  | .unary _ operand _, _ => lowerExpr operand .one
  | .binary _ left right _, _ => do
    lowerExpr left .one
    lowerExpr right .one
  | .group inner _, _ => lowerExpr inner .one
  | .nil _, _ | .varargs _, _ | .bool .., _ | .number .., _ | .string .., _ | .name .., _ =>
    pure ()

/-- Emits the calls of arguments, the first of which goes into register `r`. All results of the
last one are passed. -/
def lowerArgs (r : Nat) : List BoundExpr → Emitting Unit
  | [] => pure ()
  | e :: es => do
    setRegister r
    lowerExpr e (if es.isEmpty then .all else .one)
    lowerArgs (r + 1) es

/-- Emits the calls of a list of expressions, of the last of which all results are wanted. -/
def lowerList : List BoundExpr → Emitting Unit
  | [] => pure ()
  | e :: es => do
    lowerExpr e (if es.isEmpty then .all else .one)
    lowerList es

/-- Emits the calls of expressions of which one result each is wanted. -/
def lowerEach : List BoundExpr → Emitting Unit
  | [] => pure ()
  | e :: es => do
    lowerExpr e .one
    lowerEach es

/-- Emits the calls of an optional expression. -/
def lowerOption : Option BoundExpr → Emitting Unit
  | none => pure ()
  | some e => lowerExpr e .one

/-- Emits the calls of an item of a table constructor. -/
def lowerItem : Item Reference LocalId → Emitting Unit
  | .positional value => lowerExpr value .one
  | .named _ value => lowerExpr value .one
  | .keyed key value => do
    lowerExpr key .one
    lowerExpr value .one

/-- Emits the calls of items. -/
def lowerItems : List (Item Reference LocalId) → Emitting Unit
  | [] => pure ()
  | i :: is => do
    lowerItem i
    lowerItems is

/-- Emits the calls of the body of a function, which has registers of its own. -/
def lowerFunction : Function Reference LocalId → Emitting Unit
  | .mk _ _ body _ => keepingRegister do
    setRegister 0
    lowerBlock body

/-- Emits the calls of a statement. -/
def lowerStmt : BoundStmt → Emitting Unit
  | .expr e => lowerExpr e .none
  | .localVars _ values _ => lowerList values
  | .localFunction _ f _ => lowerFunction f
  | .functionDecl target f _ => do
    lowerExpr target .one
    lowerFunction f
  | .assign targets values _ => do
    lowerEach targets
    lowerList values
  | .compound _ target value _ => do
    lowerExpr target .one
    lowerExpr value .one
  | .block body => lowerBlock body
  | .conditional condition body rest _ => do
    lowerExpr condition .one
    lowerBlock body
    lowerAlternative rest
  | .whileLoop condition body _ => do
    lowerExpr condition .one
    lowerBlock body
  | .repeatLoop body condition _ => do
    lowerBlock body
    lowerExpr condition .one
  | .numericFor _ start limit step body _ => do
    lowerExpr start .one
    lowerExpr limit .one
    lowerOption step
    lowerBlock body
  | .genericFor _ values body _ => do
    lowerList values
    lowerBlock body
  | .ret values _ => lowerList values
  | .leave _ => pure ()

/-- Emits the calls of statements, each of which gives back the registers it takes. -/
def lowerStmts : List BoundStmt → Emitting Unit
  | [] => pure ()
  | s :: ss => do
    keepingRegister (lowerStmt s)
    lowerStmts ss

/-- Emits the calls of the rest of a conditional. -/
def lowerAlternative : Alternative Reference LocalId → Emitting Unit
  | .none => pure ()
  | .otherwise body => lowerBlock body
  | .elseIf condition body rest => do
    lowerExpr condition .one
    lowerBlock body
    lowerAlternative rest

/-- Emits the calls of a block. -/
def lowerBlock : BoundBlock → Emitting Unit
  | .mk _ stmts => lowerStmts stmts

end

end Lowering

namespace Compiler

/-- Compiles a program. The compiler starts with nothing emitted and hands over what it has
emitted. -/
def compileProgram (p : Program) : Emitting CompiledUnit := do
  modify clear
  let facts := Facts.ofProgram (← get).options.mutableGlobals p
  lowerBlock facts p.body
  modify (·.emit .ret 0 1 0)
  modifyGet fun c => (⟨c.bytecode, c.callSites⟩, { c with bytecode := #[], callSites := #[] })

/-- Compiles a source text. -/
def compile (source : String) : Emitting CompiledUnit :=
  match parseProgram source with
  | .ok p => compileProgram p
  | .error e => throw (.parse e)

end Compiler

end ScriptCore
