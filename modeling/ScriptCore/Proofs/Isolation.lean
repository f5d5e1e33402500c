import Mathlib
import ScriptCore.Proofs.ConfinedCalls

set_option relaxedAutoImplicit false
set_option autoImplicit false

/-!
# Isolation of frames

A function works above the base of its own frame, whatever it asks for and whatever functions it
calls: below the base nothing is read and nothing changed, and a call leaves the frames as it found
them. What a function does is followed operation by operation, into the functions it calls.

## Main definitions

* `ScriptCore.Configuration` — a program to be run on a machine, with `step`.
* `ScriptCore.Configuration.Visits` — the configurations a run comes through, those of the functions
  it calls included.

## Main results

* `ScriptCore.Configuration.confined_run` — a program is confined to its frame.
* `ScriptCore.MachineM.call_isolated` — isolation of the frames of a call and a protected call.
-/

namespace ScriptCore

variable {σ : Type}

/-! ## Programs -/

namespace HostProgram

/-- The rest of a program and the machine behind its first operation; nothing if it has come to its
end. A function that is called is run to its end. -/
def step (enter : HostProgram σ → MachineM σ Nat) :
    HostProgram σ → Machine σ → Option (HostProgram σ × Machine σ)
  | done _, _ | fail _, _ => none
  | ask r next, m => some (next (MachineM.lift r.answer m).1, (MachineM.lift r.answer m).2)
  | invoke i next, m =>
    some (next (MachineM.invoke enter i m).1, (MachineM.invoke enter i m).2)
  | define name body upvalues next, m =>
    some (next (m.state.addNative name upvalues).1, m.addFunction name body upvalues)
  | fetch next, m => some (next m.host, m)
  | update f next, m => some (next, m.withHost (f m.host))

/-- Running a program is doing its first operation and running the rest. -/
lemma run_of_step {enter : HostProgram σ → MachineM σ Nat} {p q : HostProgram σ} {m n : Machine σ}
    (h : p.step enter m = some (q, n)) : run enter p m = run enter q n := by
  cases p with
  | done | fail => cases h
  | ask | invoke | define | fetch | update =>
    obtain ⟨rfl, rfl⟩ := Prod.mk.inj (Option.some.inj h)
    rfl

end HostProgram

/-- A program to be run on a machine, with calls nested up to a number of levels. -/
structure Configuration (σ : Type) where
  levels : Nat
  program : HostProgram σ
  machine : Machine σ

namespace Configuration

/-- What a configuration is behind its first operation. -/
def step (c : Configuration σ) : Option (Configuration σ) :=
  (c.program.step (HostProgram.runWithin c.levels) c.machine).map fun qn => ⟨c.levels, qn.1, qn.2⟩

/-- The configurations a run comes through: the one it starts from, what that is behind each of its
operations, and inside an invocation the program that is entered, one level deeper. -/
inductive Visits : Configuration σ → Configuration σ → Prop
  | start {c : Configuration σ} : Visits c c
  | step {c c' d : Configuration σ} (h : c.step = some c') (hd : Visits c' d) : Visits c d
  | enter {levels : Nat} {i : Invocation} {next : Except RuntimeError i.Reply → HostProgram σ}
      {m k : Machine σ} {body : HostProgram σ} {d : Configuration σ}
      (h : i.enters? m = some (body, k)) (hd : Visits ⟨levels, body, k⟩ d) :
      Visits ⟨levels + 1, .invoke i next, m⟩ d

/-- The next operation is for something of its own frame. -/
def AsksLocal (c : Configuration σ) : Prop :=
  match c.program with
  | .ask r _ => r.IsLocal
  | .invoke i _ => i.IsLocal
  | _ => True

/-- The next operation is confined to the frame it is done in. Making a function and the state of
the host have nothing to do with the stack. -/
def Confined (c : Configuration σ) : Prop :=
  match c.program with
  | .ask r _ => MachineM.Confined c.machine.state.base (MachineM.lift r.answer) c.machine
  | .invoke i _ =>
    MachineM.Confined c.machine.state.base (MachineM.invoke (HostProgram.runWithin c.levels) i) c.machine
  | _ => True

/-- Behind an operation that is confined to the frame, the frames are the same, and a run with other
slots below its frame has come to the same point. -/
lemma step_confined {levels : Nat} {p q : HostProgram σ} {m n : Machine σ} (hm : m.state.Framed)
    (hc : Confined ⟨levels, p, m⟩) (h : p.step (HostProgram.runWithin levels) m = some (q, n)) :
    n.state.frames = m.state.frames ∧ n.state.Framed ∧
      ∀ low, p.step (HostProgram.runWithin levels) (m.graft m.state.base low) =
        some (q, n.graft m.state.base low) := by
  cases p with
  | done | fail => cases h
  | ask r next =>
    obtain ⟨rfl, rfl⟩ := Prod.mk.inj (Option.some.inj h)
    refine ⟨hc.frames, hc.framed hm le_rfl, fun low => ?_⟩
    rw [HostProgram.step, hc.graft]
  | invoke i next =>
    obtain ⟨rfl, rfl⟩ := Prod.mk.inj (Option.some.inj h)
    refine ⟨hc.frames, hc.framed hm le_rfl, fun low => ?_⟩
    rw [HostProgram.step, hc.graft]
  | define name body upvalues next =>
    obtain ⟨rfl, rfl⟩ := Prod.mk.inj (Option.some.inj h)
    refine ⟨rfl, ⟨hm.increasing, hm.base_le, hm.top_le⟩, fun low => ?_⟩
    rw [HostProgram.step, Machine.addFunction_graft, Machine.state_graft, State.graft,
      State.addNative_withStack]
  | fetch next =>
    obtain ⟨rfl, rfl⟩ := Prod.mk.inj (Option.some.inj h)
    refine ⟨rfl, hm, fun low => ?_⟩
    rw [HostProgram.step, Machine.host_graft]
  | update f next =>
    obtain ⟨rfl, rfl⟩ := Prod.mk.inj (Option.some.inj h)
    refine ⟨rfl, hm, fun low => ?_⟩
    rw [HostProgram.step, Machine.host_graft, Machine.withHost_graft]

/-- A program whose first operation is confined is confined if its rest is. -/
lemma confined_run_of_step {levels : Nat} {p q : HostProgram σ} {m n : Machine σ}
    (hm : m.state.Framed) (hc : Confined ⟨levels, p, m⟩)
    (h : p.step (HostProgram.runWithin levels) m = some (q, n))
    (hq : MachineM.Confined n.state.base (q.run (HostProgram.runWithin levels)) n) :
    MachineM.Confined m.state.base (p.run (HostProgram.runWithin levels)) m := by
  obtain ⟨hframes, -, hgraft⟩ := step_confined hm hc h
  have hbase : n.state.base = m.state.base := by rw [State.base, hframes, State.base]
  have hrun := HostProgram.run_of_step h
  rw [hbase] at hq
  refine ⟨?_, ?_, ?_, fun low => ?_⟩
  · rw [hrun]
    exact hq.frames.trans hframes
  · rw [hrun]
    exact hq.floor_le
  · rw [hrun]
    exact hq.top_le
  · rw [HostProgram.run_of_step (hgraft low), hq.graft, hrun]

/-- What may happen in one operation: it is confined if the programs it enters are. -/
lemma confined_of_local {levels : Nat} {p : HostProgram σ} {m : Machine σ} (hm : m.state.Framed)
    (hp : AsksLocal ⟨levels, p, m⟩)
    (henter : ∀ i next body k, p = .invoke i next → i.enters? m = some (body, k) →
      MachineM.Confined k.state.base (HostProgram.runWithin levels body) k) :
    Confined ⟨levels, p, m⟩ := by
  cases p with
  | ask r next => exact Request.local_answer hp m hm
  | invoke i next => exact MachineM.confined_invoke hp hm fun body k hk => henter i next body k rfl hk
  | _ => trivial

/-- One level of calls: a program is confined if the programs its invocations enter are. -/
lemma confined_run_of_enter {levels : Nat}
    (henter : ∀ (m k : Machine σ) i next body, m.state.Framed → i.IsLocal →
      i.enters? m = some (body, k) →
      (∀ c, Visits ⟨levels, .invoke i next, m⟩ c → c.AsksLocal) →
      MachineM.Confined k.state.base (HostProgram.runWithin levels body) k)
    (p : HostProgram σ) (m : Machine σ) (hm : m.state.Framed)
    (hp : ∀ c, Visits ⟨levels, p, m⟩ c → c.AsksLocal) :
    Confined ⟨levels, p, m⟩ ∧
      MachineM.Confined m.state.base (p.run (HostProgram.runWithin levels)) m := by
  have hc : ∀ (p : HostProgram σ) (m : Machine σ), m.state.Framed →
      (∀ c, Visits ⟨levels, p, m⟩ c → c.AsksLocal) → Confined ⟨levels, p, m⟩ := by
    intro p m hm hp
    refine confined_of_local hm (hp _ .start) fun i next body k hpi hk => ?_
    subst hpi
    exact henter m k i next body hm (hp _ .start) hk hp
  refine ⟨hc p m hm hp, ?_⟩
  -- the rest behind the first operation comes through less
  have hrest : ∀ {p q : HostProgram σ} {m n : Machine σ}, m.state.Framed →
      (∀ c, Visits ⟨levels, p, m⟩ c → c.AsksLocal) →
      p.step (HostProgram.runWithin levels) m = some (q, n) →
      (n.state.Framed → (∀ c, Visits ⟨levels, q, n⟩ c → c.AsksLocal) →
        MachineM.Confined n.state.base (q.run (HostProgram.runWithin levels)) n) →
      MachineM.Confined m.state.base (p.run (HostProgram.runWithin levels)) m := by
    intro p q m n hm hp hstep hq
    refine confined_run_of_step hm (hc p m hm hp) hstep ?_
    refine hq (step_confined hm (hc p m hm hp) hstep).2.1 fun c hvisit => hp c (.step ?_ hvisit)
    rw [step, hstep]
    rfl
  induction p generalizing m with
  | done results => exact .pure _ hm.base_le hm.top_le
  | fail e => exact .throw _ hm.base_le hm.top_le
  | ask r next ih => exact hrest hm hp rfl (ih _ _)
  | invoke i next ih => exact hrest hm hp rfl (ih _ _)
  | define name body upvalues next _ ih => exact hrest hm hp rfl (ih _ _)
  | fetch next ih => exact hrest hm hp rfl (ih _ _)
  | update f next ih => exact hrest hm hp rfl (ih _)

/-- **A program is confined to its frame** if all it comes through asks only for things of their own
frames.

*Proof sketch.* By induction on the levels of calls, and for each on the program. A request is
confined by itself; an invocation is, since the program it enters is confined by the hypothesis for
one level less; and what follows is confined by that for the rest of the program. -/
theorem confined_run (levels : Nat) (p : HostProgram σ) (m : Machine σ) (hm : m.state.Framed)
    (hp : ∀ c, Visits ⟨levels, p, m⟩ c → c.AsksLocal) :
    Confined ⟨levels, p, m⟩ ∧
      MachineM.Confined m.state.base (p.run (HostProgram.runWithin levels)) m := by
  induction levels generalizing p m with
  | zero =>
    refine confined_run_of_enter (fun m k i next body hm hi hk _ => ?_) p m hm hp
    obtain ⟨hframed, -⟩ := Invocation.enters?_framed hi hm hk
    exact .throw _ hframed.base_le hframed.top_le
  | succ levels ih =>
    refine confined_run_of_enter (fun m k i next body hm hi hk hvisits => ?_) p m hm hp
    obtain ⟨hframed, -⟩ := Invocation.enters?_framed hi hm hk
    exact (ih body k hframed fun c hc => hvisits c (.enter hk hc)).2

/-- **Every configuration of a run is framed, at or above the frame the run starts in, and its next
operation is confined to its own frame.**

*Proof sketch.* By induction on the way to the configuration: an operation leaves the frames as they
are, and a program that is entered gets a frame above. -/
theorem Visits.framed {c d : Configuration σ} (h : Visits c d) (hm : c.machine.state.Framed)
    (hc : ∀ c', Visits c c' → c'.AsksLocal) :
    d.machine.state.Framed ∧ c.machine.state.base ≤ d.machine.state.base ∧ d.Confined := by
  induction h with
  | @start c => exact ⟨hm, le_rfl, (confined_run c.levels c.program c.machine hm hc).1⟩
  | @step c c' d h hd ih =>
    obtain ⟨⟨q, n⟩, hstep, rfl⟩ := Option.map_eq_some_iff.mp h
    obtain ⟨hframes, hframed, -⟩ :=
      step_confined hm (confined_run c.levels c.program c.machine hm hc).1 hstep
    have hbase : n.state.base = c.machine.state.base := by rw [State.base, hframes, State.base]
    obtain ⟨hd, hle, hconf⟩ := ih hframed fun c' hc' => hc c' (.step h hc')
    exact ⟨hd, hbase ▸ hle, hconf⟩
  | @enter levels i next m k body d h hd ih =>
    obtain ⟨hframed, hlt⟩ := Invocation.enters?_framed (hc _ .start) hm h
    obtain ⟨hd, hle, hconf⟩ := ih hframed fun c' hc' => hc c' (.enter h hc')
    exact ⟨hd, hlt.le.trans hle, hconf⟩

end Configuration

/-! ## Functions that ask only for things of their own frames -/

namespace HostProgram

/-- Whatever it is answered, the program asks only for things of its own frame, and so do the
programs of the functions it makes. -/
def IsLocal : HostProgram σ → Prop
  | done _ | fail _ => True
  | ask r next => r.IsLocal ∧ ∀ reply, (next reply).IsLocal
  | invoke i next => i.IsLocal ∧ ∀ reply, (next reply).IsLocal
  | define _ body _ next => body.IsLocal ∧ ∀ f, (next f).IsLocal
  | fetch next => ∀ host, (next host).IsLocal
  | update _ next => next.IsLocal

end HostProgram

/-- The programs of all functions ask only for things of their own frames. -/
def Machine.IsLocal (m : Machine σ) : Prop := ∀ body ∈ m.bodies, body.IsLocal

namespace Configuration

lemma isLocal_of_step {enter : HostProgram σ → MachineM σ Nat} {p q : HostProgram σ}
    {m n : Machine σ} (hp : p.IsLocal) (hm : m.IsLocal)
    (henter : ∀ (m k : Machine σ) (i : Invocation) body, m.IsLocal → i.enters? m = some (body, k) →
      k.IsLocal → (enter body k).2.IsLocal)
    (h : p.step enter m = some (q, n)) : q.IsLocal ∧ n.IsLocal := by
  cases p with
  | done | fail => cases h
  | ask r next =>
    obtain ⟨rfl, rfl⟩ := Prod.mk.inj (Option.some.inj h)
    exact ⟨hp.2 _, hm⟩
  | invoke i next =>
    obtain ⟨rfl, rfl⟩ := Prod.mk.inj (Option.some.inj h)
    refine ⟨hp.2 _, ?_⟩
    exact MachineM.keeps_invoke (P := Machine.IsLocal) (fun _ _ _ hm => hm) i hm
      fun body k hk hkm => henter m k i body hm hk hkm
  | define name body upvalues next =>
    obtain ⟨rfl, rfl⟩ := Prod.mk.inj (Option.some.inj h)
    refine ⟨hp.2 _, fun body' hbody => ?_⟩
    rcases Array.mem_push.mp hbody with hbody | rfl
    · exact hm body' hbody
    · exact hp.1
  | fetch next =>
    obtain ⟨rfl, rfl⟩ := Prod.mk.inj (Option.some.inj h)
    exact ⟨hp _, hm⟩
  | update f next =>
    obtain ⟨rfl, rfl⟩ := Prod.mk.inj (Option.some.inj h)
    exact ⟨hp, hm⟩

lemma isLocal_run (levels : Nat) (p : HostProgram σ) (m : Machine σ) (hp : p.IsLocal)
    (hm : m.IsLocal) : (p.run (HostProgram.runWithin levels) m).2.IsLocal := by
  -- the programs that are entered keep it, by induction on the levels
  have henter : ∀ (m k : Machine σ) (i : Invocation) body, m.IsLocal →
      i.enters? m = some (body, k) → k.IsLocal →
      (HostProgram.runWithin levels body k).2.IsLocal := by
    intro m k i body hm hk hkm
    have hbody := hm body (Invocation.enters?_withState hk).2
    cases levels with
    | zero => exact hkm
    | succ levels => exact isLocal_run levels body k hbody hkm
  have hstep : ∀ {p q : HostProgram σ} {m n : Machine σ}, p.IsLocal → m.IsLocal →
      p.step (HostProgram.runWithin levels) m = some (q, n) →
      (q.IsLocal → n.IsLocal → (q.run (HostProgram.runWithin levels) n).2.IsLocal) →
      (p.run (HostProgram.runWithin levels) m).2.IsLocal := by
    intro p q m n hp hm h hq
    obtain ⟨hql, hnl⟩ := isLocal_of_step hp hm henter h
    rw [HostProgram.run_of_step h]
    exact hq hql hnl
  induction p generalizing m with
  | done | fail => exact hm
  | ask r next ih => exact hstep hp hm rfl (ih _ _)
  | invoke i next ih => exact hstep hp hm rfl (ih _ _)
  | define name body upvalues next _ ih => exact hstep hp hm rfl (ih _ _)
  | fetch next ih => exact hstep hp hm rfl (ih _ _)
  | update f next ih => exact hstep hp hm rfl (ih _)

lemma isLocal_runWithin (levels : Nat) {p : HostProgram σ} {m : Machine σ} (hp : p.IsLocal)
    (hm : m.IsLocal) : (HostProgram.runWithin levels p m).2.IsLocal := by
  cases levels with
  | zero => exact hm
  | succ levels => exact isLocal_run levels p m hp hm

/-- A run of functions that ask only for things of their own frames comes through nothing else. -/
lemma Visits.asksLocal {c d : Configuration σ} (h : Visits c d) (hp : c.program.IsLocal)
    (hm : c.machine.IsLocal) : d.AsksLocal := by
  induction h with
  | @start c =>
    obtain ⟨levels, p, m⟩ := c
    cases p with
    | ask r next => exact hp.1
    | invoke i next => exact hp.1
    | _ => trivial
  | @step c c' d h hd ih =>
    obtain ⟨⟨q, n⟩, hstep, rfl⟩ := Option.map_eq_some_iff.mp h
    obtain ⟨hql, hnl⟩ := isLocal_of_step hp hm
      (fun m k i body hm hk hkm =>
        isLocal_runWithin _ (hm body (Invocation.enters?_withState hk).2) hkm) hstep
    exact ih hql hnl
  | @enter levels i next m k body d h hd ih =>
    obtain ⟨hk, hbody⟩ := Invocation.enters?_withState h
    refine ih (hm body hbody) ?_
    rw [hk]
    exact hm

end Configuration

/-! ## Calls -/

/-- Behind a call of the function at `slot`, the frames are those before it, they lie one above the
other within the stack, and the slots below that of the function hold what they held. -/
structure State.Returned (slot : Nat) (before after : State) : Prop where
  frames : after.frames = before.frames
  framed : after.Framed
  below : ∀ i < slot, after.stack.get i = before.stack.get i

namespace MachineM

/-- **Isolation of frames.** From a machine whose frames lie one above the other within the stack,
take any call or protected call, of a function whose program, like those of the functions it calls
to any depth, asks only for things of its own frame — with any indices, and whatever number of
results it claims. Then at every step of the run the frames lie one above the other within the
stack, the innermost one above the slot of the function, and the next operation neither reads nor
changes a slot below it; and when the call is back, with a result or with an error, the frames and
the slots below that of the function are what they were. -/
theorem call_isolated (levels nargs : Nat) (nresults : Int) {m : Machine σ}
    (hm : m.state.Framed)
    (hlocal : ∀ body k, m.callEnters? nargs = some (body, k) →
      ∀ c, Configuration.Visits ⟨levels, body, k⟩ c → c.AsksLocal) :
    (∀ body k, m.callEnters? nargs = some (body, k) →
      ∀ c, Configuration.Visits ⟨levels, body, k⟩ c →
        c.machine.state.Framed ∧ m.state.top - nargs - 1 < c.machine.state.base ∧ c.Confined) ∧
    m.state.Returned (m.state.top - nargs - 1)
      (call (HostProgram.runWithin (levels + 1)) nargs nresults m).2.state ∧
    m.state.Returned (m.state.top - nargs - 1)
      (protectedCall (HostProgram.runWithin (levels + 1)) nargs nresults m).2.state := by
  have hsize : m.state.size = m.state.top - m.state.base := rfl
  have hbase := hm.base_le
  -- the body is confined to its frame, so the call is confined above its slot
  have henter : ∀ body k, m.callEnters? nargs = some (body, k) →
      Confined k.state.base (HostProgram.runWithin (levels + 1) body) k := fun body k hk =>
    (Configuration.confined_run levels body k (Machine.callEnters?_framed hm hk).1
      (hlocal body k hk)).2
  have hreturned : ∀ x : MachineM σ Unit,
      (∀ floor, floor ≤ m.state.top →
        (nargs < m.state.size → floor ≤ m.state.top - nargs - 1) → Confined floor x m) →
      m.state.Returned (m.state.top - nargs - 1) (x m).2.state := by
    intro x hx
    have hslot := hx (m.state.top - nargs - 1) (by omega) fun _ => le_rfl
    have hframe := hx m.state.base hbase fun _ => by omega
    exact ⟨hslot.frames, hframe.framed hm le_rfl, fun i hi => hslot.get_below hi⟩
  refine ⟨fun body k hk c hc => ?_, ?_, ?_⟩
  · obtain ⟨hframed, hkbase, -⟩ := Machine.callEnters?_framed hm hk
    obtain ⟨hcframed, hle, hconf⟩ := hc.framed hframed (hlocal body k hk)
    have hslot : m.state.top - nargs - 1 < k.state.base := by omega
    exact ⟨hcframed, hslot.trans_le hle, hconf⟩
  · exact hreturned _ fun floor hfloor hslot => confined_call nresults hm hfloor hslot henter
  · exact hreturned _ fun floor hfloor hslot =>
      confined_protectedCall nresults hm hfloor hslot henter

end MachineM

/-- A program that takes more values than its frame has, calls itself until the frames are used up,
and claims more results than there are. -/
def greedy : HostProgram Unit :=
  .ask .pop fun _ => .ask .pop fun _ => .ask (.setTop (-9)) fun _ =>
    .ask (.push (.function 0)) fun _ => .invoke (.protectedCall 0 (-1)) fun _ =>
      .ask (.remove (-1)) fun _ => .ask (.insert 5) fun _ => .done 7

/-- A machine with a value on the stack, above it the function `greedy`, and an argument for it. -/
def greedyMachine : Machine Unit :=
  let m := (Machine.new ()).addFunction "greedy" greedy #[]
  (MachineM.lift (State.pushAll [.bool true, .function 0, .nil]) m).2

lemma greedyMachine_state :
    greedyMachine.state = (((Machine.new ()).addFunction "greedy" greedy #[]).state.withStack
      (Slots.empty.write 0 [.bool true, .function 0, .nil])).withTop 3 := by
  rw [greedyMachine, MachineM.lift_apply, Machine.state_withState]
  generalize hs : ((Machine.new ()).addFunction "greedy" greedy #[]).state = s
  have htop : s.top = 0 := by rw [← hs]; rfl
  have hstack : s.stack = Slots.empty := by rw [← hs]; rfl
  rw [State.pushAll_of_fits _ _ (by rw [htop]; decide), htop, hstack]
  rfl

lemma greedyMachine_framed : greedyMachine.state.Framed := by
  have hnew : ((Machine.new ()).addFunction "greedy" greedy #[]).state.Framed :=
    ⟨List.pairwise_singleton _ _, le_rfl, Nat.zero_le _⟩
  rw [greedyMachine]
  exact (MachineM.local_pushAll _ _ hnew).framed hnew le_rfl

lemma greedyMachine_bodies : greedyMachine.bodies = #[greedy] := by
  rw [greedyMachine, MachineM.lift_apply, Machine.bodies_withState]
  rfl

lemma greedyMachine_isLocal : greedyMachine.IsLocal := by
  intro body hbody
  rw [greedyMachine_bodies, Array.mem_singleton] at hbody
  subst hbody
  simp only [greedy, HostProgram.IsLocal, Request.IsLocal, Invocation.IsLocal, implies_true,
    and_self]

/-- The call of `greedy`, which fails in many ways, is isolated: the value below the function is
still there. -/
theorem MachineM.greedy_isolated :
    (∃ k, greedyMachine.callEnters? 1 = some (greedy, k)) ∧ greedyMachine.state.Framed ∧
    (∀ body k, greedyMachine.callEnters? 1 = some (body, k) →
      ∀ c, Configuration.Visits ⟨199, body, k⟩ c → c.AsksLocal) ∧
    greedyMachine.state.Returned 1
      (MachineM.call (HostProgram.runWithin (199 + 1)) 1 (-1) greedyMachine).2.state ∧
    greedyMachine.state.Returned 1
      (MachineM.protectedCall (HostProgram.runWithin (199 + 1)) 1 (-1) greedyMachine).2.state := by
  have hlocal : ∀ body k, greedyMachine.callEnters? 1 = some (body, k) →
      ∀ c, Configuration.Visits ⟨199, body, k⟩ c → c.AsksLocal := by
    intro body k hk c hc
    obtain ⟨hk, hbody⟩ := Machine.callEnters?_withState hk
    refine hc.asksLocal (greedyMachine_isLocal body hbody) ?_
    rw [hk]
    exact greedyMachine_isLocal
  have htop : greedyMachine.state.top = 3 := by rw [greedyMachine_state, State.top_withTop]
  have hslot : greedyMachine.state.top - 1 - 1 = 1 := by rw [htop]
  have h := MachineM.call_isolated 199 1 (-1) greedyMachine_framed hlocal
  rw [hslot] at h
  refine ⟨?_, greedyMachine_framed, hlocal, h.2⟩
  have hcallee : (MachineM.callee 1 greedyMachine).1 = .ok (1, 0, greedy) := by
    refine MachineM.callee_eq_ok_iff.mpr ⟨?_, ?_, ?_, ?_, ?_⟩
    · rw [State.size, htop, greedyMachine_state]
      decide
    · rw [htop]
    · rw [greedyMachine_state, State.stack_withTop, State.stack_withStack]
      simp only [Slots.write, Slots.get_set]
      decide
    · rw [greedyMachine_bodies]
      rfl
    · rw [greedyMachine_state]
      decide
  exact ⟨greedyMachine.entered 1 0, by rw [Machine.callEnters?, hcallee]⟩

end ScriptCore
