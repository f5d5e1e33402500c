import ScriptCore.Machine.Closure
import ScriptCore.Machine.Registry

set_option autoImplicit false

/-!
# Programs of the host

The functions a machine calls are programs of the host. A program is a tree: it asks the machine
for one thing at a time and goes on with what the answer is, an error included. It may make new
functions, and keep a state of its own, of a type `σ` the host chooses, which all its programs
share.

`Routine` is the monad in which programs are written: a routine makes a program from what is to be
done with its result. An error that is not handled ends the routine.

## Main definitions

* `ScriptCore.ArithOp` — the arithmetic operators.
* `ScriptCore.Request`, `ScriptCore.Request.answer` — requests to the state of a machine.
* `ScriptCore.Invocation` — requests in which functions may be called.
* `ScriptCore.HostProgram`, `ScriptCore.Routine` — programs and how they are written.
-/

namespace ScriptCore

/-- The arithmetic operators with two operands. -/
inductive ArithOp
  | add | sub | mul | div | mod | idiv
deriving DecidableEq, Repr

/-! ## Requests -/

/-- What a program may ask of the state of a machine. -/
inductive Request
  -- the stack of the current frame
  | push (v : Value)
  | pop
  | valueAt (index : Int)
  | frameSize
  | slotOf (index : Int)
  | remove (index : Int)
  | replace (index : Int)
  | insert (index : Int)
  | setTop (index : Int)
  -- the function that is running
  | upvalue (i : Nat)
  | currentName
  | raise (message : String)
  | refuse (index : Int) (message : String)
  | checkNumber (index : Int)
  | checkString (index : Int)
  | checkBytes (index : Int)
  -- values
  | coerceNumber (v : Value)
  | bytes (v : Value)
  | intern (content : List UInt8)
  -- tables
  | newTable (size : Nat)
  | rawGet (t key : Value)
  | rawSet (t key value : Value)
  | getGlobal (name : String)
  | setGlobal (name : String) (value : Value)
  | registryGet (name : String)
  | metafield (v : Value) (event : String)
  | setMetatable (v metatable : Value)
  | newUserdata (payload : Nat) (metatable : Value)
  -- closure environments
  | newEnv (parent : Option Nat)
  | envGet (e level slot : Nat)
  | envSet (e level slot : Nat) (value : Value)
  | newClosureEnv (index : Int)
  | pushCaptured (index : Int) (level slot : Nat)
  | storeCaptured (index : Int) (level slot : Nat)
  -- libraries
  | registerLibrary (name : String) (size : Nat)
  -- collection
  | collect
  | maybeCollect
  | setStress (on : Bool)
  | trace (roots : List Value)
  | sweep
  -- the machine as a whole
  | setSlot (i : Nat) (v : Value)
  | reset
  | inspect

/-- What a request is answered with. Nothing is when the request is for an error. -/
def Request.Reply : Request → Type
  | raise _ | refuse .. => Empty
  | push _ | replace _ | insert _ | setTop _ => Unit
  | rawSet .. | setGlobal .. | setMetatable .. | envSet .. => Unit
  | newClosureEnv _ | pushCaptured .. | storeCaptured .. => Unit
  | collect | setStress _ | trace _ | sweep | setSlot .. | reset => Unit
  | pop | valueAt _ | remove _ | upvalue _ | intern _ => Value
  | newTable _ | rawGet .. | getGlobal _ | registryGet _ | metafield .. | newUserdata .. => Value
  | newEnv _ | envGet .. | registerLibrary .. => Value
  | frameSize | slotOf _ => Nat
  | currentName => Option String
  | checkNumber _ => Binary64
  | checkString _ => String
  | checkBytes _ => List UInt8
  | coerceNumber _ => Option Binary64
  | bytes _ => Option (List UInt8)
  | maybeCollect => Bool
  | inspect => State

/-- What the machine does on a request. -/
def Request.answer : (r : Request) → Action r.Reply
  | push v => State.push v
  | pop => State.pop
  | valueAt index => return (← get).valueAt index
  | frameSize => return (← get).size
  | slotOf index => State.slot index
  | remove index => State.remove index
  | replace index => State.replace index
  | insert index => State.insert index
  | setTop index => State.setTop index
  | upvalue i => return (← get).upvalue i
  | currentName => return (← get).currentName?
  | raise message => do throw ((← get).raised message)
  | refuse index message => do throw ((← get).badArgument index message)
  | checkNumber index => State.checkNumber index
  | checkString index => State.checkString index
  | checkBytes index => State.checkBytes index
  | coerceNumber v => return (← get).coerceNumber v
  | bytes v => return (← get).bytes? v
  | intern content => State.internBytes content
  | newTable size => State.newTable size
  | rawGet t key => return (← get).rawGet t key
  | rawSet t key value => State.rawSet t key value
  | getGlobal name => State.getGlobal name
  | setGlobal name value => State.setGlobal name value
  | registryGet name => State.registryGet name
  | metafield v event => return (← get).heap.metafield v event
  | setMetatable v metatable => State.setMetatable v metatable
  | newUserdata payload metatable => State.newUserdata payload metatable
  | newEnv parent => State.newEnv parent
  | envGet e level slot => return (← get).heap.envGet e level slot
  | envSet e level slot value =>
    modify fun s => { s with heap := s.heap.envSet e level slot value }
  | newClosureEnv index => State.newClosureEnv index
  | pushCaptured index level slot => State.pushCaptured index level slot
  | storeCaptured index level slot => State.storeCaptured index level slot
  | registerLibrary name size => State.registerLibrary name size
  | collect => modify State.collect
  | maybeCollect => State.maybeCollect
  | setStress on => modify fun s => { s with stress := on }
  | trace roots => modify fun s => { s with heap := s.heap.trace roots }
  | sweep => modify fun s => { s with heap := s.heap.sweep }
  | setSlot i v => modify fun s => { s with stack := s.stack.set i v }
  | reset => modify State.reset
  | inspect => get

/-- What a program may ask for that may call functions. -/
inductive Invocation
  /-- Call the function below `nargs` arguments; `nresults` results are kept, all for `-1`. -/
  | call (nargs : Nat) (nresults : Int)
  /-- The same, with an error turned into a message on the stack. -/
  | protectedCall (nargs : Nat) (nresults : Int)
  | arith (op : ArithOp) (a b : Value)
  | negate (a : Value)
  | lessEqual (a b : Value)
  | arithAt (op : ArithOp) (a b : Int)
  | negateAt (a : Int)
  | lessEqualAt (a b : Int)
  /-- Run an instruction with the registers from the slot `base` on. -/
  | instruction (code : UInt8) (word : UInt32) (base : Nat)

/-- What an invocation is answered with. -/
def Invocation.Reply : Invocation → Type
  | call .. | protectedCall .. | arithAt .. | negateAt .. | instruction .. => Unit
  | arith .. | negate _ => Value
  | lessEqual .. | lessEqualAt .. => Bool

/-! ## Programs -/

/-- A program of a host with states of type `σ`. -/
inductive HostProgram (σ : Type) : Type
  /-- Returns the given number of values on top of the stack. -/
  | done (results : Nat)
  /-- Ends with an error. -/
  | fail (e : RuntimeError)
  | ask (r : Request) (next : Except RuntimeError r.Reply → HostProgram σ)
  | invoke (i : Invocation) (next : Except RuntimeError i.Reply → HostProgram σ)
  /-- Makes a function. -/
  | define (name : String) (body : HostProgram σ) (upvalues : Array Value)
      (next : Value → HostProgram σ)
  /-- Reads the state of the host. -/
  | fetch (next : σ → HostProgram σ)
  /-- Changes the state of the host. -/
  | update (f : σ → σ) (next : HostProgram σ)

/-- A computation with a result of type `α`, as the program for each way to go on. -/
def Routine (σ α : Type) : Type := (Except RuntimeError α → HostProgram σ) → HostProgram σ

namespace Routine

variable {σ α β : Type}

instance : Monad (Routine σ) where
  pure a := fun next => next (.ok a)
  bind x f := fun next => x fun
    | .ok a => f a next
    | .error e => next (.error e)

instance : MonadExcept RuntimeError (Routine σ) where
  throw e := fun next => next (.error e)
  tryCatch x handler := fun next => x fun
    | .ok a => next (.ok a)
    | .error e => handler e next

/-- Asks the machine. -/
def ask (r : Request) : Routine σ r.Reply := fun next => .ask r next

/-- Asks the machine for something that may call functions. -/
def invoke (i : Invocation) : Routine σ i.Reply := fun next => .invoke i next

/-- Makes a function with the given program. -/
def define (name : String) (body : HostProgram σ) (upvalues : Array Value) : Routine σ Value :=
  fun next => .define name body upvalues fun v => next (.ok v)

/-- The state of the host. -/
def fetch : Routine σ σ := fun next => .fetch fun s => next (.ok s)

/-- Changes the state of the host. -/
def update (f : σ → σ) : Routine σ Unit := fun next => .update f (next (.ok ()))

/-- The result of a routine, errors included. -/
def attempt (x : Routine σ α) : Routine σ (Except RuntimeError α) :=
  fun next => x fun r => next (.ok r)

/-- The number of values in the current frame. -/
def frameSize : Routine σ Nat := ask .frameSize

/-- Ends with an error of the function that is running. -/
def raise (message : String) : Routine σ α := do
  nomatch (← ask (.raise message) : Empty)

/-- Ends with an error about an argument of the function that is running. -/
def refuse (index : Int) (message : String) : Routine σ α := do
  nomatch (← ask (.refuse index message) : Empty)

/-- The string with the given text. -/
def intern (text : String) : Routine σ Value := ask (.intern (Text.bytes text))

/-- The table of a library with the given functions, each under its key. -/
def defineLibrary (name : String) (functions : List (String × HostProgram σ)) :
    Routine σ Value := do
  let table ← ask (.registerLibrary name functions.length)
  for (key, body) in functions do
    let f ← define (name ++ "." ++ key) body #[]
    let k ← intern key
    ask (.rawSet table k f)
  return table

/-- The program that returns as many values as the routine says. -/
def program (x : Routine σ Nat) : HostProgram σ := x fun
  | .ok n => .done n
  | .error e => .fail e

end Routine

end ScriptCore
