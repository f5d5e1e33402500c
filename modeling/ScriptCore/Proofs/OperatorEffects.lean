import Mathlib
import ScriptCore.Proofs.ErrorBoundaries
import ScriptCore.Proofs.OperatorForms

set_option relaxedAutoImplicit false
set_option autoImplicit false

/-!
# What operators leave behind

An operator may call a handler, which pushes what it likes and fails where it likes. Behind the
operator the stack is nevertheless as it was, with the result of an arithmetic operator on indices on
top of it. As an instruction, an operator works above all registers, and of these it sets its target
only.

## Main definitions

* `ScriptCore.State.Leaves` — the stack is as before, with some values on top of it.
* `ScriptCore.Invocation.RunsTidily` — all that an invocation comes through keeps to its own frame.

## Main results

* `ScriptCore.Operator.leaves_stack` — operators on values and on indices.
* `ScriptCore.MachineM.instruction_sets_target` — operators on registers.
-/

namespace ScriptCore

variable {σ α : Type}

namespace State

variable {s t u : State}

/-- The stack of `t` is that of `s` with the values `vs` on top of it: the frames and the slots below
the top of `s` are the same, and the slots above the values are nil. -/
structure Leaves (s t : State) (vs : List Value) : Prop where
  frames : t.frames = s.frames
  top : t.top = s.top + vs.length
  below : ∀ i < s.top, t.stack.get i = s.stack.get i
  pushed : t.stack.segment s.top t.top = vs
  above : ∀ i, t.top ≤ i → t.stack.get i = .nil

/-- What is tidy above the top and puts the top back leaves the stack as it was. -/
lemma Tidy.leaves (h : s.Tidy s.top t) (htop : t.top = s.top) (hclean : s.Trimmed) :
    s.Leaves t [] where
  frames := h.frames
  top := htop
  below := h.below
  pushed := by rw [htop, Slots.segment, Nat.sub_self, List.range_zero, List.map_nil]
  above := h.clears.trimmed hclean

/-- A value that is pushed on the stack as it was is all that is left on it. -/
lemma Leaves.push (h : s.Leaves t []) (v : Value) (hroom : s.top < stackLimit) :
    (State.push v t).1 = .ok () ∧ s.Leaves (State.push v t).2 [v] := by
  have htop : t.top = s.top := h.top
  rw [push_apply, if_neg (by omega)]
  refine ⟨rfl, h.frames, ?_, fun i hi => ?_, List.ext_getElem? fun i => ?_, fun i hi => ?_⟩
  · rw [top_withTop, htop, List.length_singleton]
  · rw [stack_withTop, stack_withStack, Slots.get_set, if_neg (by omega), h.below i hi]
  · rw [Slots.getElem?_segment, top_withTop, stack_withTop, stack_withStack, Slots.get_set, htop]
    cases i with
    | zero => rw [if_pos (by omega), if_pos (by omega), List.getElem?_cons_zero]
    | succ i => rw [if_neg (by omega), List.getElem?_cons_succ, List.getElem?_nil]
  · rw [top_withTop] at hi
    rw [stack_withTop, stack_withStack, Slots.get_set, if_neg (by omega), h.above i (by omega)]

/-- There is no room for a value on a stack that is full. -/
lemma Leaves.push_of_full (h : s.Leaves t []) (v : Value) (hfull : stackLimit ≤ s.top) :
    State.push v t = (.error .stackOverflow, t) := by
  have htop : t.top = s.top := h.top
  rw [push_apply, if_pos (by omega)]

end State

/-- All that an invocation comes through keeps to its own frame. -/
def Invocation.RunsTidily (levels : Nat) (m : Machine σ) (i : Invocation) : Prop :=
  ∀ body k, i.enters? m = some (body, k) →
    ∀ c, Configuration.Visits ⟨levels, body, k⟩ c → c.AsksTidily

/-- Where all functions ask only for things of their own frames, all that is entered keeps to them. -/
lemma Machine.IsLocal.runsTidily {m : Machine σ} (hm : m.IsLocal) {levels : Nat} (i : Invocation) :
    i.RunsTidily levels m := by
  intro body k hk c hc
  obtain ⟨hstate, hbody⟩ := Invocation.enters?_withState hk
  refine (hc.asksLocal (hm body hbody) ?_).asksTidily
  rw [hstate]
  exact hm

/-! ## Operators on values and on indices -/

section Stack

open MachineM State

variable {m : Machine σ} {levels : Nat}

/-- An operator whose handler keeps to its frame is tidy above everything on the stack. -/
lemma Plan.tidy_of_visits {p : Plan α} (hm : m.state.Bounded)
    (htidy : ∀ body k, p.enters? m = some (body, k) →
      ∀ c, Configuration.Visits ⟨levels, body, k⟩ c → c.AsksTidily) :
    m.state.Tidy m.state.top (p.follow (HostProgram.runWithin (levels + 1)) m).2.state :=
  tidy_follow p hm fun body k hk =>
    (Configuration.tidy_run levels body k (Plan.enters?_bounded hm hk).1 (htidy body k hk)).2

/-- So it leaves the stack as it was. -/
lemma Plan.leaves_follow {p : Plan α} (hm : m.state.Bounded) (hclean : m.state.Trimmed)
    (htidy : ∀ body k, p.enters? m = some (body, k) →
      ∀ c, Configuration.Visits ⟨levels, body, k⟩ c → c.AsksTidily) :
    m.state.Leaves (p.follow (HostProgram.runWithin (levels + 1)) m).2.state [] :=
  (Plan.tidy_of_visits hm htidy).leaves (top_follow _ p m) hclean

/-- What pushes the result of an operator leaves that result on the stack if it succeeds, and nothing
if it fails. It succeeds if there is a result and room for it. -/
lemma MachineM.leaves_pushed {x : MachineM σ Value} (h : m.state.Leaves (x m).2.state []) :
    let y := (x >>= fun v => lift (State.push v)) m
    (∀ u, y.1 = .ok u → ∃ v, (x m).1 = .ok v ∧ m.state.Leaves y.2.state [v]) ∧
    (∀ e, y.1 = .error e → m.state.Leaves y.2.state []) ∧
    (y.1 = .ok () ↔ (∃ v, (x m).1 = .ok v) ∧ m.state.top < stackLimit) := by
  intro y
  have hy : y = andThen (x m) fun v => lift (State.push v) := bind_apply _ _ _
  rcases hx : x m with ⟨e | v, n⟩ <;> rw [hx] at h hy
  · rw [andThen_error] at hy
    rw [hy]
    exact ⟨nofun, fun _ _ => h, nofun, fun ⟨⟨_, hv⟩, _⟩ => nomatch hv⟩
  · rw [andThen_ok, lift_apply] at hy
    rw [hy]
    by_cases hroom : m.state.top < stackLimit
    · obtain ⟨hok, hleaves⟩ := h.push v hroom
      rw [hok]
      exact ⟨fun _ _ => ⟨v, rfl, hleaves⟩, nofun, fun _ => ⟨⟨v, rfl⟩, hroom⟩, fun _ => rfl⟩
    · rw [h.push_of_full v (Nat.le_of_not_lt hroom)]
      exact ⟨nofun, fun _ _ => h, nofun, fun ⟨_, hlt⟩ => absurd hlt hroom⟩

namespace Operator

variable {op : Operator} {a b : Value} {i j : Int}

/-- An operator on values leaves the stack as it was. -/
lemma leaves_values (hm : m.state.Bounded) (hclean : m.state.Trimmed)
    (htidy : (op.values a b).RunsTidily levels m) :
    m.state.Leaves (invoke (HostProgram.runWithin (levels + 1)) (op.values a b) m).2.state [] := by
  rw [invoke_values_snd]
  exact Plan.leaves_follow hm hclean fun body k hk => htidy body k (enters?_values.trans hk)

/-- **Operators leave the stack as they found it.** Take any machine with its frame within the stack
and nothing above the top, any operator, operands and indices, and handlers of which nothing is known
but that all they come through keeps to its own frame: they may fail, leave and claim what they like,
or be no functions at all, and the stack may be as full as it likes. The operator on values, and the
comparison on indices, leave the frames, the top and all slots as they were, whether they succeed or
fail. The other operators on indices do the same if they fail. If they succeed, which is when the
operator on the values of the indices has a result and there is room for one value, that result is on
top of the stack, and all else is as it was.

*Proof sketch.* What an operator does with its handler is tidy above the top, and it puts the top
back, so that all that was above the top is cleared. The result of an operator on indices is pushed
on a stack that is as before. -/
theorem leaves_stack (op : Operator) {levels : Nat} {m : Machine σ} {a b : Value} {i j : Int}
    (hm : m.state.Bounded) (hclean : m.state.Trimmed)
    (hvalues : (op.values a b).RunsTidily levels m)
    (hindices : (op.indices i j).RunsTidily levels m) :
    let enter : HostProgram σ → MachineM σ Nat := HostProgram.runWithin (levels + 1)
    let x := invoke enter (op.values a b) m
    let y := invoke enter (op.indices i j) m
    let r := (op.onValues enter (m.state.valueAt i) (m.state.valueAt j) m).1
    m.state.Leaves x.2.state [] ∧
    (op = lessEqual → m.state.Leaves y.2.state []) ∧
    (op ≠ lessEqual →
      (∀ u, y.1 = .ok u → ∃ v, r = .ok v ∧ m.state.Leaves y.2.state [v]) ∧
      (∀ e, y.1 = .error e → m.state.Leaves y.2.state []) ∧
      ((∃ u, y.1 = .ok u) ↔ (∃ v, r = .ok v) ∧ m.state.top < stackLimit)) := by
  intro enter x y r
  have hleaves : m.state.Leaves
      (invoke enter (op.values (m.state.valueAt i) (m.state.valueAt j)) m).2.state [] :=
    leaves_values hm hclean fun body k hk =>
      hindices body k (enters?_indices.trans (enters?_values.symm.trans hk))
  refine ⟨leaves_values hm hclean hvalues, fun hop => ?_, fun hop => ?_⟩
  · subst hop
    have hy : y = _ := lessEqualAt_apply enter i j m
    rw [hy]
    exact hleaves
  · have hunit : ∀ {q : Except RuntimeError Unit}, (∃ u, q = .ok u) ↔ q = .ok () :=
      ⟨fun ⟨_, h⟩ => h, fun h => ⟨_, h⟩⟩
    cases op with
    | arith op =>
      have hy : y = _ := arithAt_apply enter op i j m
      obtain ⟨hok, herror, hiff⟩ := leaves_pushed hleaves
      rw [hy]
      exact ⟨hok, herror, hunit.trans hiff⟩
    | negate =>
      have hy : y = _ := negateAt_apply enter i m
      obtain ⟨hok, herror, hiff⟩ := leaves_pushed hleaves
      rw [hy]
      exact ⟨hok, herror, hunit.trans hiff⟩
    | lessEqual => exact absurd rfl hop

end Operator

end Stack

/-! ## A handler that fails -/

/-- The machine with a table that has a handler for addition, when that does something else. -/
def handledBy (body : HostProgram Unit) : Machine Unit := { handledMachine with bodies := #[body] }

section HandledBy

variable {body : HostProgram Unit}

lemma handledBy_state : (handledBy body).state = handledMachine.state := rfl

lemma handledBy_top : (handledBy body).state.top = 2 := by rw [handledBy_state, handledMachine_top]

lemma handledBy_bounded : (handledBy body).state.Bounded := by
  rw [handledBy_state]
  exact handledMachine_bounded

lemma handledBy_isLocal (hbody : body.IsLocal) : (handledBy body).IsLocal := by
  intro p hp
  obtain rfl : p = body := Array.mem_singleton.mp hp
  exact hbody

lemma isLocal_failing : MachineM.failing.IsLocal := ⟨trivial, fun _ => trivial⟩

lemma handledBy_trimmed : (handledBy body).state.Trimmed := by
  intro i hi
  rw [handledBy_top] at hi
  rw [handledBy_state, handledMachine_stack]
  simp only [Slots.write, Slots.get_set, Slots.get_empty]
  rw [if_neg (by omega), if_neg (by omega)]

/-- The addition of the table and the truth value enters the handler. -/
lemma handledBy_enters : ∃ k,
    ((Operator.arith .add).values (.table 3) (.bool true)).enters? (handledBy body) =
      some (body, k) := by
  have hpush := State.pushAll_of_fits [.function 0, .table 3, .bool true] handledMachine.state
    (by rw [handledMachine_top]; decide)
  rw [handledMachine_top, handledMachine_stack] at hpush
  rw [Operator.enters?_values, handledBy_state, handledMachine_plan, Plan.enters?, handledBy_state,
    hpush]
  have hcallee : (MachineM.callee 2 ((handledBy body).withState
      ((handledMachine.state.withStack ((Slots.empty.write 0 [.table 3, .bool true]).write 2
        [.function 0, .table 3, .bool true])).withTop 5))).1 = .ok (2, 0, body) := by
    refine MachineM.callee_eq_ok_iff.mpr ⟨show 2 < 5 - 0 by decide, rfl, ?_, rfl,
      show 1 < State.maxFrames by decide⟩
    simp only [Machine.state_withState, State.stack_withTop, State.stack_withStack, Slots.write,
      Slots.get_set]
    decide
  exact ⟨_, Machine.callEnters?_of_callee hcallee⟩

end HandledBy

/-- An addition the handler of which leaves a value behind and fails leaves the stack as it was. -/
theorem Operator.failing_leaves_stack :
    let enter : HostProgram Unit → MachineM Unit Nat := HostProgram.runWithin (199 + 1)
    let op := Operator.arith .add
    let m := handledBy MachineM.failing
    (∃ k, (op.values (.table 3) (.bool true)).enters? m = some (MachineM.failing, k)) ∧
    m.state.Bounded ∧ m.state.Trimmed ∧
    (op.values (.table 3) (.bool true)).RunsTidily 199 m ∧ (op.indices 1 2).RunsTidily 199 m ∧
    m.state.Leaves (MachineM.invoke enter (op.values (.table 3) (.bool true)) m).2.state [] := by
  intro enter op m
  have htidy : ∀ i : Invocation, i.RunsTidily 199 m :=
    fun i => (handledBy_isLocal isLocal_failing).runsTidily i
  exact ⟨handledBy_enters, handledBy_bounded, handledBy_trimmed, htidy _, htidy _,
    (Operator.leaves_stack op handledBy_bounded handledBy_trimmed (htidy _)
      (htidy (op.indices 1 2))).1⟩

/-! ## Operators on registers -/

section Registers

open MachineM State

variable {m : Machine σ} {code : UInt8} {word : UInt32} {base : Nat}

/-- A code that no operator has is none of an operation. -/
lemma State.operationPlan_of_unknown (h : ∀ op : Operator, op.opCode.code ≠ code) (s : State)
    (b c : Value) : s.operationPlan code b c = .give (.error (.invalidOpcode code)) := by
  unfold operationPlan
  rcases hop : OpCode.ofCode? code with _ | op
  · rfl
  have hcode : op.code = code := by simpa using List.find?_some hop
  cases op with
  | add => exact absurd hcode (h (.arith .add))
  | sub => exact absurd hcode (h (.arith .sub))
  | mul => exact absurd hcode (h (.arith .mul))
  | div => exact absurd hcode (h (.arith .div))
  | mod => exact absurd hcode (h (.arith .mod))
  | idiv => exact absurd hcode (h (.arith .idiv))
  | unm => exact absurd hcode (h .negate)
  | le => exact absurd hcode (h .lessEqual)
  | ret | call | fastCall | nop => rfl

/-- An instruction whose registers lie within the stack follows the plan for what is in them, above the
window. -/
lemma MachineM.instruction_of_window (enter : HostProgram σ → MachineM σ Nat)
    (hwindow : base + registerWindow ≤ stackLimit) {b c : Value}
    (hb : m.state.stack.get (base + (Instruction.decode word).b.toNat) = b)
    (hc : m.state.stack.get (base + (Instruction.decode word).c.toNat) = c)
    {x : Except RuntimeError Value × Machine σ}
    (hx : operation enter code b c (m.withState (m.state.aboveRegisters base)) = x) :
    instruction enter code word base m =
      andThen (x.1, x.2.withState (x.2.state.withTop m.state.top))
        (lift ∘ setRegister base (Instruction.decode word).a.toNat) := by
  rw [instruction_of_ok enter (Operator.operands_eq hwindow m.state)]
  dsimp only
  rw [hb, hc, hx]

/-- An instruction whose operation was tidy above the window puts the top back and sets its target, if
there is something to set it to. -/
lemma MachineM.sets_target {s : State} {target : Nat} {x : Except RuntimeError Value × Machine σ}
    (hlimit : base + target < stackLimit)
    (hx : (s.aboveRegisters base).Tidy (max s.top (base + registerWindow)) x.2.state) :
    let z := andThen (x.1, x.2.withState (x.2.state.withTop s.top)) (lift ∘ setRegister base target)
    (z.2.state.top = s.top ∧ z.2.state.frames = s.frames) ∧
    (∀ u, z.1 = .ok u →
      (∀ slot < max s.top (base + registerWindow), slot ≠ base + target →
        z.2.state.stack.get slot = s.stack.get slot) ∧
      x.1 = .ok (z.2.state.stack.get (base + target))) ∧
    ∀ e, z.1 = .error e → ∀ slot < max s.top (base + registerWindow),
      z.2.state.stack.get slot = s.stack.get slot := by
  obtain ⟨e | v, n⟩ := x
  · exact ⟨⟨rfl, hx.frames⟩, nofun, fun _ _ slot hslot => hx.below slot hslot⟩
  · simp only [andThen_ok, Function.comp_apply, lift_apply, Machine.state_withState,
      Operator.setRegister_apply hlimit, stack_withStack, stack_withTop, Slots.get_set]
    refine ⟨⟨rfl, hx.frames⟩, fun _ _ => ⟨fun slot hslot hne => ?_, ?_⟩, nofun⟩
    · rw [if_neg fun h => hne h.1.symm]
      exact hx.below slot hslot
    · rw [if_pos ⟨trivial, hlimit⟩]

end Registers

namespace MachineM

open State

/-- **An instruction sets its target and no other register.** Take any machine with its frame within
the stack, any code, any word and any registers that lie within the stack with the window above them,
and handlers of which nothing is known but that all they come through keeps to its own frame. Then the
top and the frames are as before. If the instruction succeeds, then of all slots below the top and
below the end of the window only the target `A` may have changed, and it holds the result of the
operation, done above the window. If it fails, none of these slots has changed. And if the code is that
of no operator, it fails for this and nothing at all has changed. -/
theorem instruction_sets_target {levels : Nat} {m : Machine σ} {code : UInt8} {word : UInt32}
    {base : Nat} (hm : m.state.Bounded) (hwindow : base + registerWindow ≤ stackLimit)
    (htidy : (Invocation.instruction code word base).RunsTidily levels m) :
    let enter : HostProgram σ → MachineM σ Nat := HostProgram.runWithin (levels + 1)
    let z := instruction enter code word base m
    let i := Instruction.decode word
    let r := operation enter code (m.state.stack.get (base + i.b.toNat))
      (m.state.stack.get (base + i.c.toNat)) (m.withState (m.state.aboveRegisters base))
    (z.2.state.top = m.state.top ∧ z.2.state.frames = m.state.frames) ∧
    (∀ u, z.1 = .ok u →
      (∀ slot < max m.state.top (base + registerWindow), slot ≠ base + i.a.toNat →
        z.2.state.stack.get slot = m.state.stack.get slot) ∧
      r.1 = .ok (z.2.state.stack.get (base + i.a.toNat))) ∧
    (∀ e, z.1 = .error e → ∀ slot < max m.state.top (base + registerWindow),
      z.2.state.stack.get slot = m.state.stack.get slot) ∧
    ((∀ op : Operator, op.opCode.code ≠ code) → z = (.error (.invalidOpcode code), m)) := by
  intro enter z i r
  have hwindow' : registerWindow = 256 := rfl
  have hA := i.a.toNat_lt
  have hz : z = _ := instruction_of_window enter hwindow rfl rfl rfl
  have hr : r = _ := operation_apply enter code _ _ _
  -- above the registers, the operation is tidy
  have hraised : (m.withState (m.state.aboveRegisters base)).state.Bounded :=
    ⟨hm.base_le.trans (le_max_left _ _), max_le hm.top_le hwindow⟩
  have habove : (m.state.aboveRegisters base).Tidy (max m.state.top (base + registerWindow))
      r.2.state := by
    rw [hr]
    refine Plan.tidy_of_visits hraised fun body k hk => htidy body k ?_
    simp only [Invocation.enters?, Operator.operands_eq hwindow]
    exact hk
  obtain ⟨hkept, hok, herror⟩ := sets_target (show base + i.a.toNat < stackLimit by omega) habove
  rw [← hz] at hkept hok herror
  refine ⟨hkept, hok, herror, fun hcode => ?_⟩
  rw [operationPlan_of_unknown hcode] at hr
  have hunknown : z = _ := instruction_of_window enter hwindow rfl rfl hr
  rw [hunknown]
  rfl

/-- The addition of the registers `0` and `1` into the register `2` leaves all registers of the window
but that one as they are, though the handler leaves a value behind and fails. -/
theorem failing_instruction_sets_target :
    (handledBy failing).state.Bounded ∧ 0 + registerWindow ≤ stackLimit ∧
    (Invocation.instruction OpCode.add.code addWord 0).RunsTidily 199 (handledBy failing) ∧
    ∀ slot < 256, slot ≠ 2 →
      (instruction (HostProgram.runWithin (199 + 1)) OpCode.add.code addWord 0
        (handledBy failing)).2.state.stack.get slot = (handledBy failing).state.stack.get slot := by
  have hwindow : 0 + registerWindow ≤ stackLimit := by decide
  have htidy : (Invocation.instruction OpCode.add.code addWord 0).RunsTidily 199
      (handledBy failing) := (handledBy_isLocal isLocal_failing).runsTidily _
  have h := instruction_sets_target handledBy_bounded hwindow htidy
  refine ⟨handledBy_bounded, hwindow, htidy, fun slot hslot hne => ?_⟩
  have hwindow' : registerWindow = 256 := rfl
  have habove : slot < max (handledBy failing).state.top (0 + registerWindow) := by omega
  have htarget : slot ≠ 0 + (Instruction.decode addWord).a.toNat := by
    rw [addWord, Instruction.decode_encode]
    exact hne
  obtain ⟨-, hok, herror, -⟩ := h
  generalize instruction (HostProgram.runWithin (199 + 1)) OpCode.add.code addWord 0
    (handledBy failing) = z at hok herror ⊢
  obtain ⟨e | u, k⟩ := z
  · exact herror e rfl slot habove
  · exact (hok u rfl).1 slot habove htarget

end MachineM

end ScriptCore
