import ScriptCore.Machine.Program

set_option autoImplicit false

/-!
# Machines and calls

A machine is a state together with the programs of its functions and the state of its host. A call
runs the program of the function below the arguments in a frame of its own and puts its results in
place of the function and the arguments.

Everything that may call functions is written over `enter`, which runs the program of a function;
`ScriptCore.Machine.run` supplies it.

## Main definitions

* `ScriptCore.Machine`, `ScriptCore.MachineM` — machines and their actions.
* `ScriptCore.MachineM.call`, `ScriptCore.MachineM.protectedCall` — calls.
-/

namespace ScriptCore

/-- A machine with a host whose states have type `σ`. -/
structure Machine (σ : Type) where
  state : State
  /-- The programs of the functions, by the index of the function. -/
  bodies : Array (HostProgram σ)
  host : σ

/-- Operations of a machine that may fail; what they have done stays. -/
abbrev MachineM (σ : Type) := ExceptT RuntimeError (StateM (Machine σ))

namespace Machine

variable {σ : Type}

/-- A new machine with a host in the given state. -/
def new (host : σ) : Machine σ := ⟨.new, #[], host⟩

end Machine

namespace MachineM

variable {σ α : Type}

/-- An action on the state of a machine. -/
def lift (x : Action α) : MachineM σ α := fun ⟨state, bodies, host⟩ =>
  match x state with
  | (r, state) => (r, ⟨state, bodies, host⟩)

/-- A change of the state of a machine. -/
def modifyState (f : State → State) : MachineM σ Unit := lift (modify f)

/-- The state of a machine. -/
def state : MachineM σ State := return (← get).state

/-- The result of an operation, errors included. -/
def attempt (x : MachineM σ α) : MachineM σ (Except RuntimeError α) := fun m =>
  match x m with
  | (r, m) => (.ok r, m)

end MachineM

namespace State

/-- Opens a frame. -/
def enterFrame (s : State) (f : Frame) : State := { s with frames := f :: s.frames }

/-- Closes the innermost frame. -/
def leaveFrame (s : State) : State := { s with frames := s.frames.tail }

/-- Drops everything from a slot on. -/
def unwind (s : State) (slot : Nat) : State :=
  { s.clear slot (max s.top slot) with top := slot }

/-- The number of results kept: those wanted, or all that are there for a negative one. -/
def kept (produced : Nat) (nresults : Int) : Nat :=
  if nresults = -1 then produced else nresults.toNat

/-- Puts the topmost `produced` values of a frame in place of the function at `slot`, cut or filled
up with nil to the number of results that are kept. -/
def returnResults (slot produced : Nat) (nresults : Int) : Action Unit := do
  let s ← get
  let produced := min produced (s.top - (slot + 1))
  let s := { s with stack := s.stack.moveDown produced (s.top - produced) slot }
  let last := slot + kept produced nresults
  if stackLimit < last then
    set s
    throw .stackOverflow
  else
    set { s.clear (slot + min produced (last - slot)) (max last s.top) with top := last }

end State

namespace MachineM

variable {σ : Type} (enter : HostProgram σ → MachineM σ Nat)

/-- The slot, the index and the program of the function below `nargs` arguments. -/
def callee (nargs : Nat) : MachineM σ (Nat × Nat × HostProgram σ) := do
  let m ← get
  let s := m.state
  if s.size < nargs + 1 then throw .stackUnderflow
  let slot := s.top - nargs - 1
  let v := s.stack.get slot
  match v.function?.bind fun i => (m.bodies[i]?).map fun body => (i, body) with
  | none => throw (.notCallable v.typeName)
  | some (i, body) =>
    if State.maxFrames ≤ s.frames.length then throw .stackOverflow
    return (slot, i, body)

/-- Calls the function below `nargs` arguments. After an error of the function, it and everything
above it is dropped. -/
def call (nargs : Nat) (nresults : Int) : MachineM σ Unit := do
  let (slot, i, body) ← callee nargs
  modifyState fun s => s.enterFrame ⟨slot + 1, some i⟩
  let r ← attempt (enter body)
  modifyState State.leaveFrame
  match r with
  | .error e =>
    modifyState fun s => s.unwind slot
    throw e
  | .ok produced => lift (State.returnResults slot produced nresults)

/-- Calls the function below `nargs` arguments. After an error, the frames are as before, and the
message stands in place of the function; the error is passed on. -/
def protectedCall (nargs : Nat) (nresults : Int) : MachineM σ Unit := do
  let (size, top, depth) := (fun s : State => (s.size, s.top, s.frames.length)) (← get).state
  if size < nargs + 1 then throw .stackUnderflow
  match ← attempt (call enter nargs nresults) with
  | .ok () => return
  | .error e =>
    modifyState fun s => { s with frames := s.frames.drop (s.frames.length - depth) }
    modifyState fun s => s.unwind (top - nargs - 1)
    let message ← lift (State.intern e.message)
    lift (State.push message)
    throw e

end MachineM

end ScriptCore
