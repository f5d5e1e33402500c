import ScriptCore.Machine.Operators

set_option autoImplicit false

/-!
# Running programs

A program is run on a machine request by request. Where it calls functions, these are run in the
same way, one level deeper; since each level opens a frame, and the number of frames is limited,
there are never more levels than frames.

## Main definitions

* `ScriptCore.HostProgram.run` — a program, when programs of functions are run by `enter`.
* `ScriptCore.HostProgram.runWithin` — a program with calls nested up to a number of levels.
* `ScriptCore.Machine.execute` — a program on a machine.
-/

namespace ScriptCore

variable {σ : Type}

namespace HostProgram

/-- Runs a program. The result is the number of values it returns. -/
def run (enter : HostProgram σ → MachineM σ Nat) : HostProgram σ → MachineM σ Nat
  | done results => pure results
  | fail e => throw e
  | ask r next => fun m =>
    match (MachineM.lift r.answer) m with
    | (reply, m) => run enter (next reply) m
  | invoke i next => fun m =>
    match (MachineM.invoke enter i) m with
    | (reply, m) => run enter (next reply) m
  | define name body upvalues next => fun ⟨state, bodies, host⟩ =>
    match state.addNative name upvalues with
    | (f, state) => run enter (next f) ⟨state, bodies.push body, host⟩
  | fetch next => fun m => run enter (next m.host) m
  | update f next => fun ⟨state, bodies, host⟩ => run enter next ⟨state, bodies, f host⟩

/-- Runs a program in which calls are nested up to the given number of levels. -/
def runWithin : Nat → HostProgram σ → MachineM σ Nat
  | 0, _ => throw .stackOverflow
  | levels + 1, p => run (runWithin levels) p

end HostProgram

namespace Machine

/-- Runs a program of the host on a machine. Every call opens a frame, so the limit of frames is
also a limit of the levels. -/
def execute (p : HostProgram σ) : MachineM σ Nat :=
  p.runWithin (State.maxFrames + 1)

/-- Calls the function below `nargs` arguments, from the host. -/
def call (nargs : Nat) (nresults : Int) : MachineM σ Unit :=
  MachineM.call (HostProgram.runWithin State.maxFrames) nargs nresults

end Machine

end ScriptCore
