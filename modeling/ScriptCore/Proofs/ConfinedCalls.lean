import Mathlib
import ScriptCore.Proofs.Confinement

set_option relaxedAutoImplicit false
set_option autoImplicit false

/-!
# Calls confined to their frames

If the program a call enters is confined to its own frame, the call is confined above the slot of
its function, a protected one as well; and whatever else a function may ask for that calls functions
is confined to the frame of that function. The frame a call opens lies above all others.

## Main results

* `ScriptCore.MachineM.confined_call`, `ScriptCore.MachineM.confined_protectedCall` — calls.
* `ScriptCore.MachineM.confined_invoke` — invocations.
* `ScriptCore.Invocation.enters?_framed` — the frame of the program an invocation enters.
-/

namespace ScriptCore

variable {σ α : Type}

/-! ## Opening a frame -/

namespace State

/-- The new frame lies above the others. -/
lemma Framed.enterFrame {s : State} (h : s.Framed) {slot : Nat} (native : Option Nat)
    (hbase : s.base ≤ slot) (htop : slot < s.top) : (s.enterFrame ⟨slot + 1, native⟩).Framed where
  increasing := by
    refine List.pairwise_cons.mpr ⟨fun f hf => ?_, h.increasing⟩
    have hinc := h.increasing
    rcases hs : s.frames with _ | ⟨inner, outer⟩
    · rw [hs] at hf
      cases hf
    · have hinner : inner.base = s.base := by rw [base, hs]; rfl
      rw [hs] at hf hinc
      rcases List.mem_cons.mp hf with rfl | hf
      · dsimp only
        omega
      · have := (List.pairwise_cons.mp hinc).1 f hf
        dsimp only
        omega
  base_le := htop
  top_le := h.top_le

lemma enterFrame_graft (s : State) (b : Nat) (low : Slots) (f : Frame) :
    (s.graft b low).enterFrame f = (s.enterFrame f).graft b low := by
  rw [graft, graft, enterFrame_withStack, stack_enterFrame]

lemma leaveFrame_graft (s : State) (b : Nat) (low : Slots) :
    (s.graft b low).leaveFrame = s.leaveFrame.graft b low := by
  rw [graft, graft, leaveFrame_withStack, stack_leaveFrame]

end State

namespace Machine

variable (m : Machine σ) (b : Nat) (low : Slots)

@[simp]
lemma bodies_graft : (m.graft b low).bodies = m.bodies := by rw [graft, bodies_withState]

@[simp]
lemma host_graft : (m.graft b low).host = m.host := by rw [graft, host_withState]

lemma withHost_graft (host : σ) :
    (m.graft b low).withHost host = (m.withHost host).graft b low := by
  rw [graft, graft, withHost_withState, state_withHost]

lemma addFunction_graft (name : String) (body : HostProgram σ) (upvalues : Array Value) :
    (m.graft b low).addFunction name body upvalues =
      (m.addFunction name body upvalues).graft b low := by
  rw [graft, addFunction_withState, State.graft, State.addNative_withStack, graft,
    state_addFunction, State.graft]
  rfl

lemma withState_graft (s : State) :
    (m.graft b low).withState (s.graft b low) = (m.withState s).graft b low := by
  rw [graft, graft, withState_withState, withState_withState, state_withState]

lemma entered_graft (slot i : Nat) :
    (m.graft b low).entered slot i = (m.entered slot i).graft b low := by
  rw [entered, entered, state_graft, State.enterFrame_graft, withState_graft]

lemma left_graft : (m.graft b low).left = m.left.graft b low := by
  rw [left, left, state_graft, State.leaveFrame_graft, withState_graft]

end Machine

/-- The invocations a function can make within its own frame. -/
def Invocation.IsLocal : Invocation → Prop
  | instruction .. => False
  | _ => True

/-! ## Calls -/

namespace MachineM

/-- The callee is the same whatever lies below its slot. -/
lemma callee_graft {m : Machine σ} {nargs b : Nat} (low : Slots)
    (hb : nargs < m.state.size → b ≤ m.state.top - nargs - 1) :
    (callee nargs (m.graft b low)).1 = (callee nargs m).1 := by
  simp only [callee, bind_apply, get_apply, andThen_ok, ite_run, throw_apply, Machine.state_graft,
    State.size_graft, State.top_graft, State.stack_graft, State.frames_graft, Machine.bodies_graft]
  by_cases hsize : m.state.size < nargs + 1
  · simp only [hsize, ↓reduceIte, andThen_error]
  · rw [Slots.get_graft_of_le _ _ (hb (by omega))]
    simp only [hsize, ↓reduceIte]
    rcases (m.state.stack.get (m.state.top - nargs - 1)).function?.bind fun i =>
      (m.bodies[i]?).map fun body => (i, body) with _ | ⟨i, body⟩
    · simp only [throw_apply]
    · simp only [ite_run, bind_apply, throw_apply, andThen_error, pure_apply]
      split <;> rfl

namespace Confined

variable {floor slot : Nat} {m : Machine σ}

lemma unwind (hfloor : floor ≤ slot) (hslot : slot ≤ stackLimit) :
    Confined floor (modifyState fun s => s.unwind slot) m := by
  refine of_lift rfl hfloor hslot fun low => ?_
  simp only [modify_apply, State.unwind_eq, State.top_graft]
  rw [State.clear_graft _ _ _ hfloor, State.withTop_graft]

lemma returnResults (produced : Nat) (nresults : Int) (hfloor : floor ≤ slot)
    (hslot : slot < m.state.top) (htop : m.state.top ≤ stackLimit) :
    Confined floor (lift (State.returnResults slot produced nresults)) m := by
  have hmoved : ∀ low n, n ≤ m.state.top - (slot + 1) →
      (m.state.graft floor low).withStack
          ((m.state.graft floor low).stack.moveDown n (m.state.top - n) slot) =
        (m.state.withStack (m.state.stack.moveDown n (m.state.top - n) slot)).graft floor low := by
    intro low n hn
    rw [State.stack_graft, Slots.moveDown_graft _ _ _ (by omega) hfloor, State.withStack_graft]
  refine of_lift ?_ ?_ ?_ fun low => ?_ <;>
    simp only [State.returnResults_apply, State.top_graft] <;>
    generalize hn : min produced (m.state.top - (slot + 1)) = n <;>
    by_cases hover : stackLimit < slot + State.kept n nresults <;>
    simp only [hover, ↓reduceIte]
  · rfl
  · rfl
  · exact (hfloor.trans hslot.le : floor ≤ m.state.top)
  · simp only [State.top_withTop]
    omega
  · exact htop
  · simp only [State.top_withTop]
    omega
  · rw [hmoved low n (by omega)]
  · rw [hmoved low n (by omega), State.clear_graft _ _ _ (by omega), State.withTop_graft]

end Confined

/-- With what the function gave, a call works from its slot on. -/
lemma confined_settle {floor slot : Nat} {nresults : Int} (r : Except RuntimeError Nat)
    {m : Machine σ} (hfloor : floor ≤ slot) (hslot : slot < m.state.top)
    (htop : m.state.top ≤ stackLimit) : Confined floor (settle slot nresults r) m := by
  cases r with
  | error e =>
    have hunwind : Confined floor (modifyState fun s => s.unwind slot) m :=
      .unwind hfloor (hslot.le.trans htop)
    exact hunwind.bind fun _ n _ hle htop => .throw e hle htop
  | ok produced => exact .returnResults produced nresults hfloor hslot htop

variable {enter : HostProgram σ → MachineM σ Nat} {m : Machine σ}

/-- **A call is confined above the slot of its function**, if the function is confined to its own
frame. -/
lemma confined_call {floor nargs : Nat} (nresults : Int) (hm : m.state.Framed)
    (hfloor : floor ≤ m.state.top)
    (hslot : nargs < m.state.size → floor ≤ m.state.top - nargs - 1)
    (henter : ∀ body k, m.callEnters? nargs = some (body, k) →
      Confined k.state.base (enter body) k) :
    Confined floor (call enter nargs nresults) m := by
  have hcallee : ∀ low, (callee nargs (m.graft floor low)).1 = (callee nargs m).1 :=
    fun low => callee_graft low hslot
  cases hc : (callee nargs m).1 with
  | error e =>
    refine (Confined.throw e hfloor hm.top_le).congr (call_of_error enter hc) fun low => ?_
    rw [call_of_error enter ((hcallee low).trans hc)]
    rfl
  | ok c =>
    obtain ⟨slot, i, body⟩ := c
    obtain ⟨hsize, hs, -⟩ := callee_eq_ok_iff.mp hc
    have hfloor := hslot hsize
    rw [← hs] at hfloor
    -- the function in its frame
    have hbody : Confined (slot + 1) (enter body) (m.entered slot i) :=
      henter body (m.entered slot i) (Machine.callEnters?_of_callee hc)
    have hleft : (enter body (m.entered slot i)).2.left.state.frames = m.state.frames := by
      rw [Machine.left, Machine.state_withState, State.frames_leaveFrame, hbody.frames]
      rfl
    -- what is left to be done behind it
    have hsettle : Confined floor (settle slot nresults (enter body (m.entered slot i)).1)
        (enter body (m.entered slot i)).2.left :=
      confined_settle _ hfloor hbody.floor_le hbody.top_le
    have hcall : call enter nargs nresults m = _ := call_of_ok enter hc
    refine ⟨?_, ?_, ?_, fun low => ?_⟩
    · rw [hcall]
      exact hsettle.frames.trans hleft
    · rw [hcall]
      exact hsettle.floor_le
    · rw [hcall]
      exact hsettle.top_le
    · rw [hcall, call_of_ok enter ((hcallee low).trans hc), Machine.entered_graft,
        (hbody.mono (by omega)).graft, Machine.left_graft, hsettle.graft]

/-- After an error of a call, which leaves the frames alone, a protected call works from its slot
on. -/
lemma confined_rescue {floor depth slot : Nat} (e : RuntimeError)
    (hdepth : m.state.frames.length = depth) (hfloor : floor ≤ slot) (hslot : slot ≤ stackLimit) :
    Confined floor (lift (State.rescue depth slot e)) m := by
  let message : Action Unit :=
    State.intern e.message >>= fun v => State.push v >>= fun _ => MonadExcept.throw e
  have hrescue : ∀ n : Machine σ, n.state.frames.length = depth →
      lift (State.rescue depth slot e) n =
        (modifyState (fun s => s.unwind slot) >>= fun _ => lift message) n := by
    intro n hn
    have hframes : n.state.frames.drop (n.state.frames.length - depth) = n.state.frames := by
      rw [hn, Nat.sub_self, List.drop_zero]
    simp only [State.rescue, lift_apply, bind_apply, modify_apply, andThen_ok, modifyState_apply,
      Machine.state_withState, Machine.withState_withState, hframes, message]
  refine Confined.congr ?_ (hrescue m hdepth) fun low =>
    hrescue _ (by rw [Machine.state_graft, State.frames_graft, hdepth])
  have hunwind : Confined floor (modifyState fun s => s.unwind slot) m := .unwind hfloor hslot
  refine hunwind.bind fun _ n _ hle htop => ?_
  rw [lift_bind]
  refine (Confined.offStack (State.offStack_intern _) hle htop).bind fun v n _ hle htop => ?_
  rw [lift_bind]
  exact (Confined.push v hle htop).bind fun _ n _ hle htop => .throw e hle htop

/-- A protected call too, since what it does after an error stays above the slot. -/
lemma confined_protectedCall {floor nargs : Nat} (nresults : Int) (hm : m.state.Framed)
    (hfloor : floor ≤ m.state.top)
    (hslot : nargs < m.state.size → floor ≤ m.state.top - nargs - 1)
    (henter : ∀ body k, m.callEnters? nargs = some (body, k) →
      Confined k.state.base (enter body) k) :
    Confined floor (protectedCall enter nargs nresults) m := by
  by_cases hsize : m.state.size ≤ nargs
  · refine (Confined.throw .stackUnderflow hfloor hm.top_le).congr
      (protectedCall_of_size_le enter hsize) fun low => ?_
    rw [protectedCall_of_size_le enter (by rwa [Machine.state_graft, State.size_graft])]
    rfl
  have hsize : nargs < m.state.size := by omega
  have hgsize : ∀ low, nargs < (m.graft floor low).state.size := fun low => by
    rwa [Machine.state_graft, State.size_graft]
  have hcall : Confined floor (call enter nargs nresults) m :=
    confined_call nresults hm hfloor hslot henter
  have hgraft := hcall.graft
  cases hr : (call enter nargs nresults m).1 with
  | ok u =>
    refine hcall.congr (protectedCall_of_ok enter hsize hr) fun low => ?_
    exact protectedCall_of_ok enter (hgsize low) (by rw [hgraft]; exact hr)
  | error e =>
    have hrescue : Confined floor
        (lift (State.rescue m.state.frames.length (m.state.top - nargs - 1) e))
        (call enter nargs nresults m).2 :=
      confined_rescue e (congrArg List.length hcall.frames) (hslot hsize)
        ((Nat.sub_le _ _).trans ((Nat.sub_le _ _).trans hm.top_le))
    refine ⟨?_, ?_, ?_, fun low => ?_⟩
    · rw [protectedCall_of_error enter hsize hr]
      exact hrescue.frames.trans hcall.frames
    · rw [protectedCall_of_error enter hsize hr]
      exact hrescue.floor_le
    · rw [protectedCall_of_error enter hsize hr]
      exact hrescue.top_le
    · have hr' : (call enter nargs nresults (m.graft floor low)).1 = .error e := by
        rw [hgraft]
        exact hr
      rw [protectedCall_of_error enter (hgsize low) hr', protectedCall_of_error enter hsize hr,
        hgraft, Machine.state_graft, State.frames_graft, State.top_graft, hrescue.graft]

/-! ## Operators -/

lemma local_pushAll (vs : List Value) : Local (lift (State.pushAll vs) : MachineM σ Unit) := by
  induction vs with
  | nil => exact local_offStack (.pure ())
  | cons v vs ih =>
    rw [State.pushAll_cons, lift_bind]
    exact (local_push v).bind fun _ => ih

/-- A handler is called confined to the frame, if it is confined to its own. -/
lemma confined_callHandler (h : Value) (args : List Value) (hm : m.state.Framed)
    (henter : ∀ body k, (Plan.handle h args id).enters? m = some (body, k) →
      Confined k.state.base (enter body) k) :
    Confined m.state.base (callHandler enter h args) m := by
  -- the handler and its arguments are pushed, the handler is called, its result is taken
  have hcall : Confined m.state.base (pushAndCall enter h args) m := by
    rw [pushAndCall_eq]
    have hpush := local_pushAll (h :: args) m hm
    have hframed := hpush.framed hm le_rfl
    have hbase := hpush.base
    refine hpush.bind fun u n hn hle htop => ?_
    rw [hn] at hframed hbase
    rw [lift_apply, Prod.mk.injEq] at hn
    rw [← hbase]
    have hcall : Confined n.state.base (call enter args.length 1) n := by
      refine confined_call 1 hframed hframed.base_le (fun hsize => ?_) fun body k hk => ?_
      · have : n.state.size = n.state.top - n.state.base := rfl
        omega
      · refine henter body k ?_
        rcases hp : State.pushAll (h :: args) m.state with ⟨_ | u', s⟩
        · rw [hp] at hn
          cases hn.1
        · rw [hp] at hn
          simp only [Plan.enters?, hp]
          rw [hn.2]
          exact hk
    have hframed' := hcall.framed hframed le_rfl
    have hbase' := hcall.base
    refine hcall.bind fun _ n' hn' _ _ => ?_
    rw [hn'] at hframed' hbase'
    exact hbase' ▸ local_pop n' hframed'
  have happly := callHandler_apply enter h args
  refine ⟨?_, ?_, ?_, fun low => ?_⟩
  · rw [happly]
    exact hcall.frames
  · rw [happly]
    exact hm.base_le
  · rw [happly]
    exact hm.top_le
  · rw [happly, happly, hcall.graft, Machine.state_graft, Machine.state_graft, State.top_graft,
      State.unwind_eq, State.unwind_eq, State.top_graft, State.clear_graft _ _ _ hm.base_le,
      State.withTop_graft, Machine.withState_graft]

/-- What an operator does is confined to the frame, if its handler is confined to its own. -/
lemma confined_follow (p : Plan α) (hm : m.state.Framed)
    (henter : ∀ body k, p.enters? m = some (body, k) → Confined k.state.base (enter body) k) :
    Confined m.state.base (p.follow enter) m := by
  cases p with
  | give r =>
    cases r with
    | ok a => exact .pure a hm.base_le hm.top_le
    | error e => exact .throw e hm.base_le hm.top_le
  | handle h args finish =>
    rw [Plan.follow, map_eq_pure_bind]
    exact (confined_callHandler h args hm henter).bind fun v n _ hle htop => .pure _ hle htop

/-- An operator asks the same of its operands whatever lies below the frame. -/
lemma plan_graft {g : State → Plan α} (h : ∀ s stack, g (s.withStack stack) = g s)
    (b : Nat) (low : Slots) : g (m.graft b low).state = g m.state := by
  rw [Machine.state_graft, State.read_graft _ _ _ h]

lemma confined_of_plan {x : MachineM σ α} {g : State → Plan α} (hm : m.state.Framed)
    (hx : ∀ n, x n = (g n.state).follow enter n)
    (h : ∀ s stack, g (s.withStack stack) = g s)
    (henter : ∀ body k, (g m.state).enters? m = some (body, k) →
      Confined k.state.base (enter body) k) :
    Confined m.state.base x m :=
  (confined_follow (g m.state) hm henter).congr (hx m) fun low => by
    rw [hx, plan_graft h]

lemma confined_arith {op : ArithOp} {a b : Value} (hm : m.state.Framed)
    (henter : ∀ body k, (m.state.arithPlan op a b).enters? m = some (body, k) →
      Confined k.state.base (enter body) k) :
    Confined m.state.base (arith enter op a b) m :=
  confined_of_plan (g := fun s => s.arithPlan op a b) hm (arith_apply enter op a b)
    (fun _ _ => rfl) henter

lemma confined_negate {a : Value} (hm : m.state.Framed)
    (henter : ∀ body k, (m.state.negatePlan a).enters? m = some (body, k) →
      Confined k.state.base (enter body) k) :
    Confined m.state.base (negate enter a) m :=
  confined_of_plan (g := fun s => s.negatePlan a) hm (negate_apply enter a)
    (fun _ _ => rfl) henter

lemma confined_lessEqual {a b : Value} (hm : m.state.Framed)
    (henter : ∀ body k, (m.state.lessEqualPlan a b).enters? m = some (body, k) →
      Confined k.state.base (enter body) k) :
    Confined m.state.base (lessEqual enter a b) m :=
  confined_of_plan (g := fun s => s.lessEqualPlan a b) hm (lessEqual_apply enter a b)
    (fun _ _ => rfl) henter

/-- **What a function may call is confined to its frame**, if what is called is confined to its
own. -/
theorem confined_invoke {i : Invocation} (hi : i.IsLocal) (hm : m.state.Framed)
    (henter : ∀ body k, i.enters? m = some (body, k) → Confined k.state.base (enter body) k) :
    Confined m.state.base (invoke enter i) m := by
  have hslot : ∀ nargs, nargs < m.state.size → m.state.base ≤ m.state.top - nargs - 1 := by
    intro nargs h
    have : m.state.size = m.state.top - m.state.base := rfl
    omega
  have hvalue : ∀ low index, (m.graft m.state.base low).state.valueAt index =
      m.state.valueAt index := fun low index => by
    rw [Machine.state_graft, State.valueAt_graft hm.base_le]
  have hpushed : ∀ {x : MachineM σ Value}, Confined m.state.base x m →
      Confined m.state.base (x >>= fun r => lift (State.push r)) m :=
    fun hx => hx.bind fun r _ _ hle htop => .push r hle htop
  cases i with
  | call nargs nresults => exact confined_call nresults hm hm.base_le (hslot nargs) henter
  | protectedCall nargs nresults =>
    exact confined_protectedCall nresults hm hm.base_le (hslot nargs) henter
  | arith op a b => exact confined_arith hm henter
  | negate a => exact confined_negate hm henter
  | lessEqual a b => exact confined_lessEqual hm henter
  | arithAt op a b =>
    refine (hpushed (confined_arith hm henter)).congr (arithAt_apply enter op a b m) fun low => ?_
    exact (arithAt_apply enter op a b _).trans (by rw [hvalue, hvalue])
  | negateAt a =>
    refine (hpushed (confined_negate hm henter)).congr (negateAt_apply enter a m) fun low => ?_
    exact (negateAt_apply enter a _).trans (by rw [hvalue])
  | lessEqualAt a b =>
    refine (confined_lessEqual hm henter).congr (lessEqualAt_apply enter a b m) fun low => ?_
    exact (lessEqualAt_apply enter a b _).trans (by rw [hvalue, hvalue])
  | instruction code word base => exact hi.elim

end MachineM

/-! ## Entries -/

/-- A function runs in a frame of its own, above that of its caller; a called one right above its
slot. -/
lemma Machine.callEnters?_framed {m k : Machine σ} {nargs : Nat} {body : HostProgram σ}
    (hm : m.state.Framed) (h : m.callEnters? nargs = some (body, k)) :
    k.state.Framed ∧ k.state.base = m.state.top - nargs - 1 + 1 ∧ m.state.base < k.state.base := by
  obtain ⟨slot, i, hc, rfl⟩ := Machine.callEnters?_eq_some_iff.mp h
  obtain ⟨hsize, rfl, -⟩ := MachineM.callee_eq_ok_iff.mp hc
  have hsize' : m.state.size = m.state.top - m.state.base := rfl
  refine ⟨hm.enterFrame _ (by omega) (by omega), rfl, ?_⟩
  change m.state.base < m.state.top - nargs - 1 + 1
  omega

lemma Plan.enters?_framed {m k : Machine σ} {p : Plan α} {body : HostProgram σ}
    (hm : m.state.Framed) (h : p.enters? m = some (body, k)) :
    k.state.Framed ∧ m.state.base < k.state.base := by
  cases p with
  | give r => cases h
  | handle handler args finish =>
    simp only [Plan.enters?] at h
    have hpush := MachineM.local_pushAll (handler :: args) m hm
    have hframed := hpush.framed hm le_rfl
    have hbase := hpush.base
    rw [MachineM.lift_apply] at hframed hbase
    rcases hp : State.pushAll (handler :: args) m.state with ⟨_ | u, s⟩
    · rw [hp] at h
      cases h
    · rw [hp] at h hframed hbase
      obtain ⟨hk, -, hlt⟩ := Machine.callEnters?_framed hframed h
      exact ⟨hk, hbase ▸ hlt⟩

lemma Invocation.enters?_framed {m k : Machine σ} {i : Invocation} {body : HostProgram σ}
    (hi : i.IsLocal) (hm : m.state.Framed) (h : i.enters? m = some (body, k)) :
    k.state.Framed ∧ m.state.base < k.state.base := by
  cases i with
  | call nargs nresults | protectedCall nargs nresults =>
    obtain ⟨hk, -, hlt⟩ := Machine.callEnters?_framed hm h
    exact ⟨hk, hlt⟩
  | instruction code word base => exact hi.elim
  | _ => exact Plan.enters?_framed hm h

end ScriptCore
