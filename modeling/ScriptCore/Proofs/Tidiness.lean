import Mathlib
import ScriptCore.Proofs.FrameView
import ScriptCore.Proofs.Isolation

set_option relaxedAutoImplicit false
set_option autoImplicit false

/-!
# What functions leave on the stack

Operations of a frame are tidy: they leave the frames and the slots below their frame as they are,
and a slot they give up is nil again. A call is tidy from the slot of its function on, whether it
succeeds or fails, if the program it enters is tidy. So whole runs are, collections in them or not;
and in a run from a new machine, all slots above the top are nil at all times.

## Main definitions

* `ScriptCore.State.Tidy` — what tidiness says about two states.
* `ScriptCore.Request.IsTidy`, `ScriptCore.Invocation.IsTidy` — all but the operations that reach
  for slots by their number.

## Main results

* `ScriptCore.MachineM.tidy_call`, `ScriptCore.MachineM.tidy_protectedCall` — calls.
* `ScriptCore.Configuration.tidy_run` — programs.
* `ScriptCore.Configuration.Visits.trimmed` — runs from a new machine.
-/

namespace ScriptCore

namespace State

variable {s t u : State} {floor : Nat}

/-- The values of the current frame lie within the stack. -/
structure Bounded (s : State) : Prop where
  base_le : s.base ≤ s.top
  top_le : s.top ≤ stackLimit

/-- From the state `s`, what came to the state `t` was tidy above the slot `floor`: the frames and
the slots below the floor are the same, the top lies between the floor and the limit, and what has
been given up is cleared. -/
structure Tidy (floor : Nat) (s t : State) : Prop where
  frames : t.frames = s.frames
  floor_le : floor ≤ t.top
  top_le : t.top ≤ stackLimit
  below : ∀ i < floor, t.stack.get i = s.stack.get i
  clears : s.Clears t

namespace Tidy

lemma refl (hfloor : floor ≤ s.top) (htop : s.top ≤ stackLimit) : Tidy floor s s :=
  ⟨rfl, hfloor, htop, fun _ _ => rfl, .refl s⟩

lemma trans (h : Tidy floor s t) (h' : Tidy floor t u) : Tidy floor s u where
  frames := h'.frames.trans h.frames
  floor_le := h'.floor_le
  top_le := h'.top_le
  below i hi := (h'.below i hi).trans (h.below i hi)
  clears := h.clears.trans h'.clears

/-- What is tidy above a slot is tidy above every lower one. -/
lemma mono (h : Tidy floor s t) {floor' : Nat} (hf : floor' ≤ floor) : Tidy floor' s t :=
  ⟨h.frames, hf.trans h.floor_le, h.top_le, fun i hi => h.below i (hi.trans_le hf), h.clears⟩

lemma base (h : Tidy floor s t) : t.base = s.base := by
  rw [State.base, h.frames, State.base]

lemma bounded (h : Tidy floor s t) (hf : s.base ≤ floor) : t.Bounded :=
  ⟨h.base ▸ hf.trans h.floor_le, h.top_le⟩

/-- What leaves the stack alone is tidy. -/
lemma of_eq (hfloor : floor ≤ s.top) (htop : s.top ≤ stackLimit) (hframes : t.frames = s.frames)
    (htop' : t.top = s.top) (hstack : t.stack = s.stack) : Tidy floor s t := by
  refine ⟨hframes, htop' ▸ hfloor, htop' ▸ htop, fun i _ => by rw [hstack], fun i hi => ?_⟩
  rw [hstack]
  exact .inr ⟨htop' ▸ hi, rfl⟩

/-- Clearing the stack from a slot on is tidy. -/
lemma unwind {slot : Nat} (h : Tidy slot s t) (hslot : slot ≤ stackLimit) :
    Tidy slot s (t.unwind slot) := by
  rw [unwind_eq]
  refine h.trans ⟨rfl, le_rfl, hslot, fun i hi => ?_, fun i hi => ?_⟩
  · rw [stack_withTop, stack_clear, Slots.get_fill, if_neg (by omega)]
  · rw [top_withTop] at hi
    rw [stack_withTop, stack_clear, Slots.get_fill]
    by_cases hlt : i < t.top
    · rw [if_pos (by omega)]
      exact .inl rfl
    · rw [if_neg (by have := h.floor_le; omega)]
      exact .inr ⟨by omega, rfl⟩

/-- Putting results in place of a function at `slot` is tidy from there on, also if there is no room
for them. -/
lemma returnResults {slot : Nat} (h : Tidy slot s t) (hslot : slot < t.top) (produced : Nat)
    (nresults : Int) : Tidy slot s (returnResults slot produced nresults t).2 := by
  have htop := h.top_le
  refine h.trans ?_
  rw [returnResults_apply]
  dsimp only
  generalize hn : min produced (t.top - (slot + 1)) = n
  have hmove : ∀ i, (t.stack.moveDown n (t.top - n) slot).get i =
      if slot ≤ i ∧ i < slot + n then t.stack.get (t.top - n + (i - slot)) else t.stack.get i :=
    fun i => Slots.get_moveDown _ _ _ _ _ (by omega) (by omega)
  by_cases hover : stackLimit < slot + kept n nresults
  · rw [if_pos hover]
    refine ⟨rfl, hslot.le, htop, fun i hi => ?_, fun i hi => ?_⟩
    · rw [stack_withStack, hmove, if_neg (by omega)]
    · rw [top_withStack] at hi
      rw [stack_withStack, hmove, if_neg (by omega)]
      exact .inr ⟨hi, rfl⟩
  · rw [if_neg hover]
    refine ⟨rfl, by rw [top_withTop]; omega, by rw [top_withTop]; omega, fun i hi => ?_,
      fun i hi => ?_⟩
    · rw [stack_withTop, stack_clear, stack_withStack, Slots.get_fill, hmove, if_neg (by omega),
        if_neg (by omega)]
    · rw [top_withTop] at hi
      rw [stack_withTop, stack_clear, stack_withStack, Slots.get_fill]
      by_cases hlt : i < t.top
      · rw [if_pos (by omega)]
        exact .inl rfl
      · rw [if_neg (by omega), hmove, if_neg (by omega)]
        exact .inr ⟨by omega, rfl⟩

/-- Pushing is tidy above every slot up to the top. -/
lemma push (h : Tidy floor s t) (v : Value) : Tidy floor s (push v t).2 := by
  have hfloor := h.floor_le
  refine h.trans ?_
  rw [push_apply]
  by_cases hfull : stackLimit ≤ t.top
  · rw [if_pos hfull]
    exact .refl hfloor h.top_le
  · rw [if_neg hfull]
    refine ⟨rfl, by rw [top_withTop]; omega, by rw [top_withTop]; omega, fun i hi => ?_,
      fun i hi => ?_⟩
    · rw [stack_withTop, stack_withStack, Slots.get_set, if_neg (by omega)]
    · rw [top_withTop] at hi
      rw [stack_withTop, stack_withStack, Slots.get_set, if_neg (by omega)]
      exact .inr ⟨by omega, rfl⟩

lemma pushAll (h : Tidy floor s t) (vs : List Value) : Tidy floor s (pushAll vs t).2 := by
  induction vs generalizing t with
  | nil => exact h
  | cons v vs ih =>
    have hpush := h.push v
    rw [pushAll_cons, bind_apply]
    rcases hr : State.push v t with ⟨_ | a, u⟩ <;> rw [hr] at hpush
    · exact hpush
    · exact ih hpush

/-- Popping is tidy above every slot below the top. -/
lemma pop (h : Tidy floor s t) (hfloor : floor < t.top) : Tidy floor s (pop t).2 := by
  have htop := h.top_le
  rw [pop_apply]
  by_cases hempty : t.top ≤ t.base
  · rw [if_pos hempty]
    exact h
  · rw [if_neg hempty]
    refine h.trans ⟨rfl, ?_, ?_, fun i hi => ?_, fun i hi => ?_⟩
    · rw [dropped, top_withTop]
      omega
    · rw [dropped, top_withTop]
      omega
    · rw [dropped, stack_withTop, stack_withStack, Slots.get_set, if_neg (by omega)]
    · exact clears_set_last (by omega) htop hi

/-- An operation that refines one on the list of the frame is tidy. -/
lemma of_refines {α : Type} {x : Action α} {f : OnList α} (h : s.Refines x f) :
    Tidy s.base s (x s).2 := by
  refine ⟨?_, h.base_le, h.top_le, h.below, h.clears⟩
  obtain ⟨stack, top, hrest⟩ := h.rest
  rw [hrest]
  rfl

end Tidy

/-! ## Actions -/

/-- An action that is tidy above the base of the frame it is done in. -/
def KeepsTidy {α : Type} (x : Action α) : Prop :=
  ∀ s : State, s.Bounded → Tidy s.base s (x s).2

namespace KeepsTidy

variable {α β : Type}

lemma of_state_eq {x : Action α} (h : ∀ s, (x s).2 = s) : KeepsTidy x := by
  intro s hs
  rw [h]
  exact .refl hs.base_le hs.top_le

lemma offStack {x : Action α} (h : OffStack x) : KeepsTidy x := fun s hs =>
  .of_eq hs.base_le hs.top_le (h.frames s) (h.top s) (h.stack s)

lemma bind {x : Action α} {f : α → Action β} (hx : KeepsTidy x) (hf : ∀ a, KeepsTidy (f a)) :
    KeepsTidy (x >>= f) := by
  intro s hs
  have h := hx s hs
  have hbounded := h.bounded le_rfl
  have hbase := h.base
  rw [bind_apply]
  rcases hr : x s with ⟨_ | a, t⟩ <;> rw [hr] at h hbounded hbase
  · exact h
  · exact h.trans (hbase ▸ hf a t hbounded)

lemma get_bind {f : State → Action β} (hf : ∀ s, KeepsTidy (f s)) : KeepsTidy (get >>= f) :=
  fun s hs => hf s s hs

lemma ite {c : Prop} [Decidable c] {x y : Action α} (hx : KeepsTidy x) (hy : KeepsTidy y) :
    KeepsTidy (if c then x else y) := by
  split
  · exact hx
  · exact hy

/-- An action that is in each state the same as a tidy one. -/
lemma of_apply {x : Action α} (f : State → Action α) (hx : ∀ s, x s = f s s)
    (hf : ∀ s, KeepsTidy (f s)) : KeepsTidy x := by
  intro s hs
  rw [hx]
  exact hf s s hs

lemma push (v : Value) : KeepsTidy (push v) := fun _ hs => (Tidy.refl hs.base_le hs.top_le).push v

lemma pop : KeepsTidy pop := fun _ hs => .of_refines (refines_pop hs.base_le hs.top_le)

lemma ofExcept (r : Except RuntimeError α) : KeepsTidy (MonadExcept.ofExcept r) :=
  of_state_eq fun s => by rw [ofExcept_apply]

lemma newClosureEnv (index : Int) : KeepsTidy (newClosureEnv index) :=
  of_apply _ (newClosureEnv_apply index) fun _ => (ofExcept _).bind fun _ =>
    (offStack (newEnv_eq _ ▸ offStack_onHeap _)).bind push

lemma pushCaptured (index : Int) (level slot : Nat) : KeepsTidy (pushCaptured index level slot) :=
  of_apply _ (pushCaptured_apply index level slot) fun _ => (ofExcept _).bind fun _ => push _

lemma storeCaptured (index : Int) (level slot : Nat) : KeepsTidy (storeCaptured index level slot) :=
  of_apply _ (storeCaptured_apply index level slot) fun _ => (ofExcept _).bind fun _ =>
    pop.bind fun _ => offStack (offStack_onHeap _)

lemma registerLibrary (name : String) (size : Nat) : KeepsTidy (registerLibrary name size) := by
  refine (offStack offStack_loadedTable).bind fun loaded => ?_
  refine (offStack (offStack_intern name)).bind fun key => get_bind fun s => ?_
  refine ite ((push _).bind fun _ => offStack (.pure _)) (get_bind fun s => ?_)
  refine (offStack (offStack_findTable ..)).bind fun table => ?_
  exact (offStack (offStack_rawSet ..)).bind fun _ => (push _).bind fun _ => offStack (.pure _)

lemma checkString (index : Int) : KeepsTidy (checkString index) := by
  refine (of_state_eq fun s => by rw [checkBytes_eq]; rfl).bind fun bs => ?_
  cases Text.ofBytes? bs with
  | some text => exact offStack (.pure _)
  | none => exact get_bind fun _ => offStack (.throw _)

lemma maybeCollect : KeepsTidy maybeCollect := by
  intro s hs
  rw [State.maybeCollect, modifyGet_apply]
  split <;> exact .of_eq hs.base_le hs.top_le rfl rfl rfl

end KeepsTidy

end State

/-! ## Requests and invocations -/

/-- The requests that keep to the frame: all but the one for a slot by its number and the one that
gives up all frames. Collections are among them. -/
def Request.IsTidy : Request → Prop
  | setSlot .. | reset => False
  | _ => True

/-- The invocations that keep to the frame: all but the one that writes to a register. -/
def Invocation.IsTidy : Invocation → Prop
  | instruction .. => False
  | _ => True

/-- **A request that keeps to the frame is tidy.** -/
lemma Request.tidy_answer {r : Request} (h : r.IsTidy) : State.KeepsTidy r.answer := by
  open State in
  cases r with
  | push v => exact .push v
  | pop => exact .pop
  | remove index => exact fun _ hs => .of_refines (refines_remove hs.base_le hs.top_le index)
  | replace index => exact fun _ hs => .of_refines (refines_replace hs.base_le hs.top_le index)
  | insert index => exact fun _ hs => .of_refines (refines_insert hs.base_le hs.top_le index)
  | setTop index => exact fun _ hs => .of_refines (refines_setTop hs.base_le hs.top_le index)
  | newClosureEnv index => exact .newClosureEnv index
  | pushCaptured index level slot => exact .pushCaptured index level slot
  | storeCaptured index level slot => exact .storeCaptured index level slot
  | registerLibrary name size => exact .registerLibrary name size
  | checkString index => exact .checkString index
  | checkNumber index => exact .of_state_eq fun s => by rw [answer, checkNumber_eq]; rfl
  | checkBytes index => exact .of_state_eq fun s => by rw [answer, checkBytes_eq]; rfl
  | slotOf index =>
    refine .of_state_eq fun s => ?_
    rw [answer, slot_apply]
    cases s.slot? index <;> rfl
  | intern content => exact .offStack (offStack_internBytes content)
  | rawSet t key value => exact .offStack (offStack_rawSet t key value)
  | getGlobal name => exact .offStack (offStack_getGlobal name)
  | setGlobal name value => exact .offStack (offStack_setGlobal name value)
  | registryGet name => exact .offStack (offStack_registryGet name)
  | setMetatable v metatable => exact .offStack (offStack_setMetatable v metatable)
  | valueAt | frameSize | upvalue | currentName | raise | refuse | coerceNumber | bytes | rawGet
  | metafield | envGet | inspect => exact .of_state_eq fun _ => rfl
  | newTable | newUserdata | newEnv | envSet | setStress | trace | sweep | collect =>
    exact fun s hs => .of_eq hs.base_le hs.top_le rfl rfl rfl
  | maybeCollect => exact .maybeCollect
  | setSlot | reset => exact h.elim

namespace MachineM

open State

variable {σ α : Type} {enter : HostProgram σ → MachineM σ Nat} {m : Machine σ}

/-- A sequence is tidy if its parts are. -/
lemma tidy_bind {β : Type} {floor : Nat} {x : MachineM σ α} {f : α → MachineM σ β}
    (hx : m.state.Tidy floor (x m).2.state)
    (hf : ∀ a n, x m = (.ok a, n) → n.state.Tidy floor (f a n).2.state) :
    m.state.Tidy floor ((x >>= f) m).2.state := by
  rw [bind_apply]
  rcases hr : x m with ⟨_ | a, n⟩ <;> rw [hr] at hx
  · exact hx
  · exact hx.trans (hf a n hr)

/-- Once the frame of the function at `slot` is closed, all is tidy above that slot. -/
lemma tidy_left {slot i : Nat} {n : Machine σ} (h : (m.entered slot i).state.Tidy (slot + 1) n.state) :
    m.state.Tidy (slot + 1) n.left.state where
  frames := congrArg List.tail h.frames
  floor_le := h.floor_le
  top_le := h.top_le
  below := h.below
  clears := h.clears

/-- What a call does behind the frame of its function is tidy. -/
lemma tidy_settle {slot i : Nat} {nresults : Int} {r : Except RuntimeError Nat} {n : Machine σ}
    (hslot : slot ≤ stackLimit) (h : (m.entered slot i).state.Tidy (slot + 1) n.state) :
    m.state.Tidy slot (settle slot nresults r n.left).2.state := by
  have hleft := (tidy_left h).mono (Nat.le_succ slot)
  cases r with
  | error e => exact hleft.unwind hslot
  | ok produced => exact hleft.returnResults h.floor_le produced nresults

/-- The program a call enters starts in a frame within the stack. -/
lemma bounded_entered {nargs slot i : Nat} {body : HostProgram σ} (hm : m.state.Bounded)
    (hc : (callee nargs m).1 = .ok (slot, i, body)) : (m.entered slot i).state.Bounded := by
  obtain ⟨hsize, hslot, -⟩ := callee_eq_ok_iff.mp hc
  have hsize' : m.state.size = m.state.top - m.state.base := rfl
  have hentered : (m.entered slot i).state.top = m.state.top := rfl
  refine ⟨?_, hm.top_le⟩
  change slot + 1 ≤ m.state.top
  omega

/-- **A call is tidy from the slot of its function on**, if the program it enters is tidy. -/
lemma tidy_call {floor nargs : Nat} (nresults : Int) (hm : m.state.Bounded)
    (hfloor : floor ≤ m.state.top)
    (hslot : nargs < m.state.size → floor ≤ m.state.top - nargs - 1)
    (henter : ∀ body k, m.callEnters? nargs = some (body, k) →
      k.state.Tidy k.state.base (enter body k).2.state) :
    m.state.Tidy floor (call enter nargs nresults m).2.state := by
  cases hc : (callee nargs m).1 with
  | error e =>
    rw [call_of_error enter hc]
    exact .refl hfloor hm.top_le
  | ok c =>
    obtain ⟨slot, i, body⟩ := c
    obtain ⟨hsize, rfl, -⟩ := callee_eq_ok_iff.mp hc
    have hbody := henter body (m.entered (m.state.top - nargs - 1) i)
      (Machine.callEnters?_of_callee hc)
    have hlimit : m.state.top - nargs - 1 ≤ stackLimit := by
      have := hm.top_le
      omega
    rw [call_of_ok enter hc]
    exact (tidy_settle hlimit hbody).mono (hslot hsize)

end MachineM

namespace State

/-- The state in which the message of an error stands at a slot, and nothing above it. -/
def reported (s : State) (slot : Nat) (e : RuntimeError) : State :=
  ((({ s.unwind slot with heap := (s.heap.intern (Text.bytes e.message)).2 } : State).withStack
    ((s.unwind slot).stack.set slot (.string (s.heap.intern (Text.bytes e.message)).1))).withTop
    (slot + 1))

/-- What a protected call does after an error, if there is no frame too many: it passes the error on
with its message at the slot of the function. For that there is always room. -/
lemma rescue_apply {s : State} {slot depth : Nat} (e : RuntimeError) (hslot : slot < stackLimit)
    (hdepth : s.frames.length ≤ depth) :
    rescue depth slot e s = (.error e, s.reported slot e) := by
  have hframes : s.frames.drop (s.frames.length - depth) = s.frames := by
    rw [Nat.sub_eq_zero_of_le hdepth, List.drop_zero]
  have hroom : ¬ stackLimit ≤ (s.unwind slot).top := by
    rw [unwind_eq, top_withTop]
    omega
  simp only [rescue, bind_apply, modify_apply, andThen_ok, hframes, intern, internBytes_eq, onHeap,
    push_apply]
  rw [if_neg hroom, andThen_ok]
  rfl

/-- Reporting an error at a slot is tidy from there on. -/
lemma Tidy.reported {s t : State} {slot : Nat} (h : Tidy slot s t) (e : RuntimeError)
    (hslot : slot < stackLimit) : Tidy slot s (t.reported slot e) := by
  have hunwind := h.unwind hslot.le
  have htop : (t.unwind slot).top = slot := rfl
  have hpush := hunwind.push (.string (t.heap.intern (Text.bytes e.message)).1)
  rw [push_apply, if_neg (by omega)] at hpush
  refine ⟨hpush.frames, hpush.floor_le, hpush.top_le, hpush.below, hpush.clears⟩

end State

namespace MachineM

open State

variable {σ α : Type} {enter : HostProgram σ → MachineM σ Nat} {m : Machine σ}

/-- A protected call passes the error of the call on, with its message in place of the function. -/
lemma protectedCall_of_tidy {nargs : Nat} {nresults : Int} {e : RuntimeError} (hm : m.state.Bounded)
    (hsize : nargs < m.state.size) (hr : (call enter nargs nresults m).1 = .error e)
    (htidy : m.state.Tidy (m.state.top - nargs - 1) (call enter nargs nresults m).2.state) :
    protectedCall enter nargs nresults m =
      (.error e, (call enter nargs nresults m).2.withState
        ((call enter nargs nresults m).2.state.reported (m.state.top - nargs - 1) e)) := by
  have hsize' : m.state.size = m.state.top - m.state.base := rfl
  have htop := hm.top_le
  rw [protectedCall_of_error enter hsize hr, lift_apply,
    rescue_apply e (by omega) (congrArg List.length htidy.frames).le]

/-- **A protected call is tidy from the slot of its function on** too. -/
lemma tidy_protectedCall {floor nargs : Nat} (nresults : Int) (hm : m.state.Bounded)
    (hfloor : floor ≤ m.state.top)
    (hslot : nargs < m.state.size → floor ≤ m.state.top - nargs - 1)
    (henter : ∀ body k, m.callEnters? nargs = some (body, k) →
      k.state.Tidy k.state.base (enter body k).2.state) :
    m.state.Tidy floor (protectedCall enter nargs nresults m).2.state := by
  by_cases hsize : m.state.size ≤ nargs
  · rw [protectedCall_of_size_le enter hsize]
    exact .refl hfloor hm.top_le
  have hsize : nargs < m.state.size := by omega
  have hsize' : m.state.size = m.state.top - m.state.base := rfl
  have htop := hm.top_le
  have hcall := tidy_call nresults hm (by omega) (fun _ => le_rfl) henter
  cases hr : (call enter nargs nresults m).1 with
  | ok u =>
    rw [protectedCall_of_ok enter hsize hr]
    exact hcall.mono (hslot hsize)
  | error e =>
    rw [protectedCall_of_tidy hm hsize hr hcall]
    exact (hcall.reported e (by omega)).mono (hslot hsize)

/-- A handler is called above everything on the stack, and tidily, if it is tidy itself. -/
lemma tidy_callHandler (h : Value) (args : List Value) (hm : m.state.Bounded)
    (henter : ∀ body k, (Plan.handle h args id).enters? m = some (body, k) →
      k.state.Tidy k.state.base (enter body k).2.state) :
    m.state.Tidy m.state.top (callHandler enter h args m).2.state := by
  have hbase := hm.base_le
  suffices hcall : m.state.Tidy m.state.top (pushAndCall enter h args m).2.state by
    rw [callHandler_apply]
    exact hcall.unwind hm.top_le
  -- the handler and its arguments are pushed, the handler is called, its result is taken
  rw [pushAndCall_eq]
  have hpush : m.state.Tidy m.state.top (pushAll (h :: args) m.state).2 :=
    (Tidy.refl le_rfl hm.top_le).pushAll _
  refine tidy_bind hpush fun u n hn => ?_
  rw [lift_apply, Prod.mk.injEq] at hn
  obtain ⟨hok, rfl⟩ := hn
  have htop := (pushAll_top (h :: args) m.state).2.2 hok
  rw [List.length_cons] at htop
  have hbounded := hpush.bounded hbase
  have hcall : (m.withState (pushAll (h :: args) m.state).2).state.Tidy m.state.top
      (call enter args.length 1 (m.withState (pushAll (h :: args) m.state).2)).2.state := by
    refine tidy_call 1 hbounded ?_ (fun _ => ?_) fun body k hk => henter body k ?_
    · rw [Machine.state_withState]
      omega
    · rw [Machine.state_withState]
      omega
    · rw [Plan.enters?, ← hk]
      rcases hp : pushAll (h :: args) m.state with ⟨_ | u', s⟩
      · rw [hp] at hok
        cases hok
      · rfl
  refine tidy_bind hcall fun u n hn => ?_
  have hone : (1 : Int) ≠ -1 := by decide
  have htop' := top_call_of_ok hone (congrArg Prod.fst hn)
  rw [hn, Machine.state_withState] at htop'
  dsimp only at htop'
  rw [hn] at hcall
  have hpop : n.state.Tidy m.state.top n.state := .refl hcall.floor_le hcall.top_le
  exact hpop.pop (by omega)

/-- An operator is tidy above everything on the stack, if its handler is tidy. -/
lemma tidy_follow (p : Plan α) (hm : m.state.Bounded)
    (henter : ∀ body k, p.enters? m = some (body, k) →
      k.state.Tidy k.state.base (enter body k).2.state) :
    m.state.Tidy m.state.top (p.follow enter m).2.state := by
  cases p with
  | give r =>
    rw [Plan.follow, ofExcept_apply]
    exact .refl le_rfl hm.top_le
  | handle h args finish =>
    have hcall := tidy_callHandler h args hm henter
    rw [Plan.follow, map_apply]
    rcases hr : callHandler enter h args m with ⟨_ | v, n⟩ <;> rw [hr] at hcall <;> exact hcall

/-- **What a function may call is tidy**, if what is called is. -/
lemma tidy_invoke {i : Invocation} (hi : i.IsTidy) (hm : m.state.Bounded)
    (henter : ∀ body k, i.enters? m = some (body, k) →
      k.state.Tidy k.state.base (enter body k).2.state) :
    m.state.Tidy m.state.base (invoke enter i m).2.state := by
  have hsize : m.state.size = m.state.top - m.state.base := rfl
  have hbase := hm.base_le
  -- the result of an operator on indices is pushed
  have hpushed : ∀ {x : MachineM σ Value}, m.state.Tidy m.state.top (x m).2.state →
      m.state.Tidy m.state.base ((x >>= fun r => lift (State.push r)) m).2.state := by
    intro x hx
    refine Tidy.mono (tidy_bind hx fun r n hn => ?_) hbase
    rw [hn] at hx
    exact (Tidy.refl hx.floor_le hx.top_le).push r
  cases i with
  | call nargs nresults => exact tidy_call nresults hm hbase (fun _ => by omega) henter
  | protectedCall nargs nresults =>
    exact tidy_protectedCall nresults hm hbase (fun _ => by omega) henter
  | arith op a b =>
    change m.state.Tidy m.state.base (arith enter op a b m).2.state
    rw [arith_apply]
    exact (tidy_follow _ hm henter).mono hbase
  | negate a =>
    change m.state.Tidy m.state.base (negate enter a m).2.state
    rw [negate_apply]
    exact (tidy_follow _ hm henter).mono hbase
  | lessEqual a b =>
    change m.state.Tidy m.state.base (lessEqual enter a b m).2.state
    rw [lessEqual_apply]
    exact (tidy_follow _ hm henter).mono hbase
  | arithAt op a b =>
    change m.state.Tidy m.state.base (arithAt enter op a b m).2.state
    rw [arithAt_apply]
    refine hpushed ?_
    rw [arith_apply]
    exact tidy_follow _ hm henter
  | negateAt a =>
    change m.state.Tidy m.state.base (negateAt enter a m).2.state
    rw [negateAt_apply]
    refine hpushed ?_
    rw [negate_apply]
    exact tidy_follow _ hm henter
  | lessEqualAt a b =>
    change m.state.Tidy m.state.base (lessEqualAt enter a b m).2.state
    rw [lessEqualAt_apply, lessEqual_apply]
    exact (tidy_follow _ hm henter).mono hbase
  | instruction code word base => exact hi.elim

end MachineM

/-! ## Entries -/

variable {σ α : Type}

/-- The program a call enters starts within the stack, with nothing more above the top. -/
lemma Machine.callEnters?_bounded {m k : Machine σ} {nargs : Nat} {body : HostProgram σ}
    (hm : m.state.Bounded) (h : m.callEnters? nargs = some (body, k)) :
    k.state.Bounded ∧ m.state.Clears k.state := by
  obtain ⟨slot, i, hc, rfl⟩ := Machine.callEnters?_eq_some_iff.mp h
  exact ⟨MachineM.bounded_entered hm hc, .refl m.state⟩

lemma Plan.enters?_bounded {m k : Machine σ} {p : Plan α} {body : HostProgram σ}
    (hm : m.state.Bounded) (h : p.enters? m = some (body, k)) :
    k.state.Bounded ∧ m.state.Clears k.state := by
  cases p with
  | give r => cases h
  | handle handler args finish =>
    simp only [Plan.enters?] at h
    have hpush := (State.Tidy.refl hm.base_le hm.top_le).pushAll (handler :: args)
    rcases hp : State.pushAll (handler :: args) m.state with ⟨_ | u, s⟩
    · rw [hp] at h
      cases h
    · rw [hp] at h hpush
      obtain ⟨hbounded, hclears⟩ := Machine.callEnters?_bounded (hpush.bounded le_rfl) h
      exact ⟨hbounded, hpush.clears.trans hclears⟩

/-- The program an invocation enters starts within the stack, with nothing more above the top. -/
lemma Invocation.enters?_bounded {m k : Machine σ} {i : Invocation} {body : HostProgram σ}
    (hi : i.IsTidy) (hm : m.state.Bounded) (h : i.enters? m = some (body, k)) :
    k.state.Bounded ∧ m.state.Clears k.state := by
  cases i with
  | call nargs nresults | protectedCall nargs nresults => exact Machine.callEnters?_bounded hm h
  | instruction code word base => exact hi.elim
  | _ => exact Plan.enters?_bounded hm h

/-! ## Runs -/

namespace Configuration

/-- The next operation keeps to the frame. -/
def AsksTidily (c : Configuration σ) : Prop :=
  match c.program with
  | .ask r _ => r.IsTidy
  | .invoke i _ => i.IsTidy
  | _ => True

/-- What is asked for in one's own frame keeps to it. -/
lemma AsksLocal.asksTidily {c : Configuration σ} (h : c.AsksLocal) : c.AsksTidily := by
  obtain ⟨levels, p, m⟩ := c
  cases p with
  | ask r next => cases r <;> trivial
  | invoke i next => cases i <;> trivial
  | _ => trivial

/-- One operation is tidy if the program it enters is. -/
lemma tidy_step {enter : HostProgram σ → MachineM σ Nat} {levels : Nat} {p q : HostProgram σ}
    {m n : Machine σ} (hm : m.state.Bounded) (hp : AsksTidily ⟨levels, p, m⟩)
    (henter : ∀ i next body k, p = .invoke i next → i.enters? m = some (body, k) →
      k.state.Tidy k.state.base (enter body k).2.state)
    (h : p.step enter m = some (q, n)) : m.state.Tidy m.state.base n.state := by
  cases p with
  | done | fail => cases h
  | ask r next =>
    obtain ⟨rfl, rfl⟩ := Prod.mk.inj (Option.some.inj h)
    exact Request.tidy_answer hp m.state hm
  | invoke i next =>
    obtain ⟨rfl, rfl⟩ := Prod.mk.inj (Option.some.inj h)
    exact MachineM.tidy_invoke hp hm fun body k hk => henter i next body k rfl hk
  | define | fetch | update =>
    obtain ⟨rfl, rfl⟩ := Prod.mk.inj (Option.some.inj h)
    exact .of_eq hm.base_le hm.top_le rfl rfl rfl

/-- One level of calls: a program is tidy if the programs its invocations enter are. -/
lemma tidy_run_of_enter {levels : Nat}
    (henter : ∀ (m k : Machine σ) i next body, m.state.Bounded → i.IsTidy →
      i.enters? m = some (body, k) →
      (∀ c, Visits ⟨levels, .invoke i next, m⟩ c → c.AsksTidily) →
      k.state.Tidy k.state.base (HostProgram.runWithin levels body k).2.state)
    (p : HostProgram σ) (m : Machine σ) (hm : m.state.Bounded)
    (hp : ∀ c, Visits ⟨levels, p, m⟩ c → c.AsksTidily) :
    (∀ q n, p.step (HostProgram.runWithin levels) m = some (q, n) →
      m.state.Tidy m.state.base n.state) ∧
    m.state.Tidy m.state.base (p.run (HostProgram.runWithin levels) m).2.state := by
  have hstep : ∀ (p q : HostProgram σ) (m n : Machine σ), m.state.Bounded →
      (∀ c, Visits ⟨levels, p, m⟩ c → c.AsksTidily) →
      p.step (HostProgram.runWithin levels) m = some (q, n) →
      m.state.Tidy m.state.base n.state := by
    intro p q m n hm hp h
    refine tidy_step hm (hp _ .start) (fun i next body k hpi hk => ?_) h
    subst hpi
    exact henter m k i next body hm (hp _ .start) hk hp
  refine ⟨fun q n => hstep p q m n hm hp, ?_⟩
  -- the rest behind the first operation comes through less
  have hrest : ∀ {p q : HostProgram σ} {m n : Machine σ}, m.state.Bounded →
      (∀ c, Visits ⟨levels, p, m⟩ c → c.AsksTidily) →
      p.step (HostProgram.runWithin levels) m = some (q, n) →
      (n.state.Bounded → (∀ c, Visits ⟨levels, q, n⟩ c → c.AsksTidily) →
        n.state.Tidy n.state.base (q.run (HostProgram.runWithin levels) n).2.state) →
      m.state.Tidy m.state.base (p.run (HostProgram.runWithin levels) m).2.state := by
    intro p q m n hm hp h hq
    have htidy := hstep p q m n hm hp h
    rw [HostProgram.run_of_step h]
    refine htidy.trans (htidy.base ▸ hq (htidy.bounded le_rfl) fun c hc => hp c (.step ?_ hc))
    rw [step, h]
    rfl
  induction p generalizing m with
  | done | fail => exact .refl hm.base_le hm.top_le
  | ask r next ih => exact hrest hm hp rfl (ih _ _)
  | invoke i next ih => exact hrest hm hp rfl (ih _ _)
  | define name body upvalues next _ ih => exact hrest hm hp rfl (ih _ _)
  | fetch next ih => exact hrest hm hp rfl (ih _ _)
  | update f next ih => exact hrest hm hp rfl (ih _)

/-- **A program is tidy** if all it comes through keeps to its own frames.

*Proof sketch.* By induction on the levels of calls, and for each on the program. A request is tidy
by itself; an invocation is, since the program it enters is by the hypothesis for one level less;
and tidiness is transitive. -/
theorem tidy_run (levels : Nat) (p : HostProgram σ) (m : Machine σ) (hm : m.state.Bounded)
    (hp : ∀ c, Visits ⟨levels, p, m⟩ c → c.AsksTidily) :
    (∀ q n, p.step (HostProgram.runWithin levels) m = some (q, n) →
      m.state.Tidy m.state.base n.state) ∧
    m.state.Tidy m.state.base (p.run (HostProgram.runWithin levels) m).2.state := by
  induction levels generalizing p m with
  | zero =>
    refine tidy_run_of_enter (fun m k i next body hm hi hk _ => ?_) p m hm hp
    obtain ⟨hbounded, -⟩ := Invocation.enters?_bounded hi hm hk
    exact .refl hbounded.base_le hbounded.top_le
  | succ levels ih =>
    refine tidy_run_of_enter (fun m k i next body hm hi hk hvisits => ?_) p m hm hp
    obtain ⟨hbounded, -⟩ := Invocation.enters?_bounded hi hm hk
    exact (ih body k hbounded fun c hc => hvisits c (.enter hk hc)).2

/-- **Every configuration of a run has its frame within the stack, and what is above its top is
nil**, if that is so where the run starts. -/
theorem Visits.trimmed {c d : Configuration σ} (h : Visits c d) (hm : c.machine.state.Bounded)
    (htrimmed : c.machine.state.Trimmed) (hc : ∀ c', Visits c c' → c'.AsksTidily) :
    d.machine.state.Bounded ∧ d.machine.state.Trimmed := by
  induction h with
  | start => exact ⟨hm, htrimmed⟩
  | @step c c' d h hd ih =>
    obtain ⟨⟨q, n⟩, hstep, rfl⟩ := Option.map_eq_some_iff.mp h
    have htidy := (tidy_run c.levels c.program c.machine hm hc).1 q n hstep
    exact ih (htidy.bounded le_rfl) (htidy.clears.trimmed htrimmed)
      fun c' hc' => hc c' (.step h hc')
  | @enter levels i next m k body d h hd ih =>
    obtain ⟨hbounded, hclears⟩ := Invocation.enters?_bounded (hc _ .start) hm h
    exact ih hbounded (hclears.trimmed htrimmed) fun c' hc' => hc c' (.enter h hc')

end Configuration

end ScriptCore
