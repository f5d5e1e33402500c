import Mathlib
import ScriptCore.Proofs.Interning
import ScriptCore.Proofs.RelocatedRuns

set_option relaxedAutoImplicit false
set_option autoImplicit false

/-!
# The three forms of an operator

An operator works on values, on indices of the current frame, or, as an instruction, on registers.
The three forms come to the same result by way of the same handler, which finds the same values in
its frame, though this lies above the top of the stack in the first two forms and above all
registers in the third.

## Main definitions

* `ScriptCore.Operator` — the operators, with `values`, `indices` and `registers` for their forms.
* `ScriptCore.Operator.onValues`, `ScriptCore.Operator.onIndices`,
  `ScriptCore.Operator.onRegisters` — the result of each form.

## Main results

* `ScriptCore.Operator.forms_agree` — the three forms agree.
-/

namespace ScriptCore

variable {σ : Type}

/-- The operators. Negation has one operand and takes no notice of a second one. -/
inductive Operator
  | arith (op : ArithOp)
  | negate
  | lessEqual
deriving DecidableEq, Repr

namespace Operator

/-- The operation of the instruction for an operator. -/
def opCode : Operator → OpCode
  | arith .add => .add
  | arith .sub => .sub
  | arith .mul => .mul
  | arith .div => .div
  | arith .mod => .mod
  | arith .idiv => .idiv
  | negate => .unm
  | lessEqual => .le

/-- The operator on two values. -/
def values : Operator → Value → Value → Invocation
  | arith op, a, b => .arith op a b
  | negate, a, _ => .negate a
  | lessEqual, a, b => .lessEqual a b

/-- The operator on the values of two indices. -/
def indices : Operator → Int → Int → Invocation
  | arith op, a, b => .arithAt op a b
  | negate, a, _ => .negateAt a
  | lessEqual, a, b => .lessEqualAt a b

/-- The operator on the registers of an instruction. -/
def registers (op : Operator) (word : UInt32) (base : Nat) : Invocation :=
  .instruction op.opCode.code word base

section Forms

variable (enter : HostProgram σ → MachineM σ Nat)

/-- The result of an operator on two values. -/
def onValues : Operator → Value → Value → MachineM σ Value
  | arith op, a, b => MachineM.arith enter op a b
  | negate, a, _ => MachineM.negate enter a
  | lessEqual, a, b => return .bool (← MachineM.lessEqual enter a b)

/-- The result of an operator on the values of two indices: that of an arithmetic operator is left on
top of the stack, that of a comparison is returned. -/
def onIndices : Operator → Int → Int → MachineM σ Value
  | arith op, a, b => do
    MachineM.arithAt enter op a b
    return (← MachineM.state).valueAt (-1)
  | negate, a, _ => do
    MachineM.negateAt enter a
    return (← MachineM.state).valueAt (-1)
  | lessEqual, a, b => return .bool (← MachineM.lessEqualAt enter a b)

/-- The result of an operator on registers, which is left in the register `A`. -/
def onRegisters (op : Operator) (word : UInt32) (base : Nat) : MachineM σ Value := do
  MachineM.instruction enter op.opCode.code word base
  return (← MachineM.state).stack.get (base + (Instruction.decode word).a.toNat)

end Forms

/-- What an operator on indices leaves on the stack. -/
def pushed : Operator → Except RuntimeError Value → List Value
  | lessEqual, _ => []
  | _, .ok v => [v]
  | _, .error _ => []

/-- What an operator does on two values. -/
def plan (op : Operator) (s : State) (a b : Value) : Plan Value :=
  s.operationPlan op.opCode.code a b

variable {op : Operator} {enter : HostProgram σ → MachineM σ Nat} {m : Machine σ} {a b : Value}

lemma plan_arith (op : ArithOp) (s : State) (a b : Value) :
    (arith op).plan s a b = s.arithPlan op a b := by
  cases op <;> rfl

lemma plan_negate (s : State) (a b : Value) : negate.plan s a b = s.negatePlan a := rfl

lemma plan_lessEqual (s : State) (a b : Value) :
    lessEqual.plan s a b = match s.lessEqualPlan a b with
      | .give r => .give (r.map Value.bool)
      | .handle h args finish => .handle h args fun v => .bool (finish v) := rfl

/-- An operator on values follows its plan. -/
lemma onValues_apply (op : Operator) (a b : Value) (m : Machine σ) :
    op.onValues enter a b m = (op.plan m.state a b).follow enter m := by
  rw [plan, ← MachineM.operation_apply]
  cases op with
  | arith op => cases op <;> rfl
  | negate | lessEqual => rfl

/-- What an operator on values leaves behind is what its plan leaves. -/
lemma invoke_values_snd (op : Operator) (a b : Value) (m : Machine σ) :
    (MachineM.invoke enter (op.values a b) m).2 = ((op.plan m.state a b).follow enter m).2 := by
  rw [← onValues_apply]
  cases op with
  | arith | negate => rfl
  | lessEqual =>
    change (MachineM.lessEqual enter a b m).2 = _
    rw [onValues, bind_apply]
    cases MachineM.lessEqual enter a b m with
    | mk r n => cases r <;> rfl

lemma fits_lessEqualPlan {s : State} {top : Nat} :
    (lessEqual.plan s a b).Fits top ↔ (s.lessEqualPlan a b).Fits top := by
  rw [plan_lessEqual]
  cases s.lessEqualPlan a b <;> rfl

lemma enters?_lessEqualPlan :
    (lessEqual.plan m.state a b).enters? m = (m.state.lessEqualPlan a b).enters? m := by
  rw [plan_lessEqual]
  cases m.state.lessEqualPlan a b <;> rfl

lemma fits_values : (op.values a b).Fits enter m ↔ (op.plan m.state a b).Fits m.state.top := by
  cases op with
  | arith op => rw [plan_arith]; rfl
  | negate => rfl
  | lessEqual => exact fits_lessEqualPlan.symm

lemma enters?_values : (op.values a b).enters? m = (op.plan m.state a b).enters? m := by
  cases op with
  | arith op => rw [plan_arith]; rfl
  | negate => rfl
  | lessEqual => exact enters?_lessEqualPlan.symm

lemma pushed_error (op : Operator) (e : RuntimeError) : op.pushed (.error e) = [] := by
  cases op <;> rfl

lemma pushed_ok (hop : op ≠ lessEqual) (v : Value) : op.pushed (.ok v) = [v] := by
  cases op with
  | arith | negate => rfl
  | lessEqual => exact absurd rfl hop

/-! ## On indices -/

section Indices

variable {i j : Int}

lemma enters?_indices :
    (op.indices i j).enters? m = (op.plan m.state (m.state.valueAt i) (m.state.valueAt j)).enters? m := by
  cases op with
  | arith op => rw [plan_arith]; rfl
  | negate => rfl
  | lessEqual => exact enters?_lessEqualPlan.symm

lemma fits_of_indices (h : (op.indices i j).Fits enter m) :
    (op.plan m.state (m.state.valueAt i) (m.state.valueAt j)).Fits m.state.top ∧
      (op ≠ lessEqual →
        (op.plan m.state (m.state.valueAt i) (m.state.valueAt j)).ResultFits enter m) := by
  cases op with
  | arith op =>
    rw [plan_arith]
    exact ⟨h.1, fun _ => h.2⟩
  | negate => exact ⟨h.1, fun _ => h.2⟩
  | lessEqual => exact ⟨fits_lessEqualPlan.mpr h, fun hne => absurd rfl hne⟩

open MachineM State

/-- A value that is pushed is the last one of the frame. -/
lemma push_view {s : State} (hs : s.Bounded) (htop : s.top < stackLimit) (v : Value) :
    ∃ t, State.push v s = (.ok (), t) ∧ s.Agree t ∧ t.view = s.view ++ [v] ∧ t.valueAt (-1) = v := by
  have hsize : s.size = s.top - s.base := rfl
  have hbase := hs.base_le
  have hrefines := refines_push hs.base_le hs.top_le v
  have hlist : OnList.push (stackLimit - s.base) v s.view = (.ok (), s.view ++ [v]) := by
    rw [OnList.push, length_view, if_neg (by omega)]
  have hresult := hrefines.result
  have hview := hrefines.view
  rw [hlist] at hresult hview
  have hbase' : (State.push v s).2.base ≤ (State.push v s).2.top := by
    rw [(Tidy.of_refines hrefines).base]
    exact hrefines.base_le
  refine ⟨(State.push v s).2, Prod.ext hresult rfl, ?_, hview, ?_⟩
  · obtain ⟨stack, top, hrest⟩ := hrefines.rest
    rw [hrest]
    exact .of_stack s stack top
  · have hposition : OnList.position? (s.view ++ [v]).length (-1) = some s.view.length := by
      rw [OnList.position?, List.length_append, List.length_singleton, if_neg (by omega),
        if_pos (by omega)]
      congr 1
      omega
    rw [valueAt_eq_view hbase', hview, OnList.valueAt, hposition, Option.bind_some,
      List.getElem?_concat_length, Option.getD_some]

/-- The result of an operation, pushed and read from the top of the stack. -/
def throughTop (x : MachineM σ Value) : MachineM σ Value := do
  lift (State.push (← x))
  return (← MachineM.state).valueAt (-1)

/-- A result that is pushed is on top of the values that were there before. -/
lemma throughTop_result (hop : op ≠ lessEqual) {x : MachineM σ Value}
    (hx : (x m).2.state.Bounded)
    (hroom : ∀ v, (x m).1 = .ok v → (x m).2.state.top < stackLimit) :
    (throughTop x m).1 = (x m).1 ∧ (x m).2.Related Agree (throughTop x m).2 ∧
      (throughTop x m).2.state.view = (x m).2.state.view ++ op.pushed (x m).1 := by
  rw [throughTop, bind_apply]
  rcases hr : x m with ⟨e | v, k⟩ <;> rw [hr] at hx hroom
  · rw [andThen_error, pushed_error, List.append_nil]
    exact ⟨rfl, ⟨.refl _, rfl, rfl⟩, rfl⟩
  · obtain ⟨t, hpush, hagree, hview, hvalue⟩ := push_view hx (hroom v rfl) v
    rw [andThen_ok, bind_apply, lift_apply, hpush, pushed_ok hop]
    exact ⟨congrArg Except.ok hvalue, ⟨hagree, rfl, rfl⟩, hview⟩

/-- An operator on indices follows its plan on their values, and pushes the result of that unless it
returns it. -/
lemma indices_result (enter : HostProgram σ → MachineM σ Nat) (m : Machine σ) (op : Operator)
    (i j : Int)
    (hx : ((op.plan m.state (m.state.valueAt i) (m.state.valueAt j)).follow enter m).2.state.Bounded)
    (hfits : op ≠ lessEqual →
      (op.plan m.state (m.state.valueAt i) (m.state.valueAt j)).ResultFits enter m) :
    let x := (op.plan m.state (m.state.valueAt i) (m.state.valueAt j)).follow enter m
    (op.onIndices enter i j m).1 = x.1 ∧ x.2.Related Agree (op.onIndices enter i j m).2 ∧
      (op.onIndices enter i j m).2.state.view = x.2.state.view ++ op.pushed x.1 := by
  have hroom : ∀ p : Plan Value, p.ResultFits enter m → ∀ v, (p.follow enter m).1 = .ok v →
      (p.follow enter m).2.state.top < stackLimit := by
    intro p hp v hv
    rw [top_follow]
    exact hp v hv
  cases op with
  | arith op =>
    have hne : arith op ≠ lessEqual := fun h => by cases h
    have hform : (arith op).onIndices enter i j m = throughTop
        (((arith op).plan m.state (m.state.valueAt i) (m.state.valueAt j)).follow enter) m := by
      rw [onIndices, bind_apply, arithAt_apply, bind_apply, arith_apply, ← plan_arith, ← bind_apply,
        ← bind_apply, bind_assoc]
      rfl
    rw [hform]
    exact throughTop_result hne hx (hroom _ (hfits hne))
  | negate =>
    have hne : negate ≠ lessEqual := fun h => by cases h
    have hform : negate.onIndices enter i j m = throughTop
        ((negate.plan m.state (m.state.valueAt i) (m.state.valueAt j)).follow enter) m := by
      rw [onIndices, bind_apply, negateAt_apply, bind_apply, negate_apply,
        ← plan_negate _ _ (m.state.valueAt j), ← bind_apply, ← bind_apply, bind_assoc]
      rfl
    rw [hform]
    exact throughTop_result hne hx (hroom _ (hfits hne))
  | lessEqual =>
    have hform : lessEqual.onIndices enter i j m =
        (lessEqual.plan m.state (m.state.valueAt i) (m.state.valueAt j)).follow enter m := by
      rw [onIndices, bind_apply, lessEqualAt_apply, ← bind_apply]
      exact onValues_apply lessEqual _ _ m
    rw [hform]
    refine ⟨rfl, ⟨.refl _, rfl, rfl⟩, ?_⟩
    rw [pushed, List.append_nil]

end Indices

/-! ## On registers -/

section Registers

variable {word : UInt32} {base : Nat}

open MachineM State

/-- The operands of an instruction are in its registers. -/
lemma operands_eq (hwindow : base + registerWindow ≤ stackLimit) (s : State) :
    (State.operands word base s).1 =
      .ok (s.stack.get (base + (Instruction.decode word).b.toNat),
        s.stack.get (base + (Instruction.decode word).c.toNat)) := by
  have hb := (Instruction.decode word).b.toNat_lt
  have hc := (Instruction.decode word).c.toNat_lt
  have hwindow' : registerWindow = 256 := rfl
  simp only [operands, register, bind_apply, ite_run, throw_apply]
  rw [if_neg (by omega)]
  simp only [get_apply, andThen_ok, pure_apply, bind_apply, ite_run, throw_apply]
  rw [if_neg (by omega)]
  rfl

lemma fits_registers :
    (op.registers word base).Fits enter m ↔ base + registerWindow ≤ stackLimit ∧
      (op.plan m.state (m.state.stack.get (base + (Instruction.decode word).b.toNat))
        (m.state.stack.get (base + (Instruction.decode word).c.toNat))).Fits
          (m.state.aboveRegisters base).top := by
  refine ⟨fun h => ⟨h.1, h.2 _ _ (operands_eq h.1 m.state)⟩, fun h => ⟨h.1, fun b c hbc => ?_⟩⟩
  rw [operands_eq h.1, Except.ok.injEq, Prod.mk.injEq] at hbc
  rw [← hbc.1, ← hbc.2]
  exact h.2

lemma enters?_registers (hwindow : base + registerWindow ≤ stackLimit) :
    (op.registers word base).enters? m =
      (op.plan m.state (m.state.stack.get (base + (Instruction.decode word).b.toNat))
        (m.state.stack.get (base + (Instruction.decode word).c.toNat))).enters?
          (m.withState (m.state.aboveRegisters base)) := by
  rw [registers, Invocation.enters?, operands_eq hwindow]
  rfl

lemma setRegister_apply {i : Nat} (hi : base + i < stackLimit) (v : Value) (s : State) :
    setRegister base i v s = (.ok (), s.withStack (s.stack.set (base + i) v)) := by
  simp only [setRegister, ite_run, bind_apply, modify_apply, throw_apply]
  rw [if_neg (by omega)]
  rfl

/-- An operator on registers follows its plan above these and leaves the result in one of them. All
other slots up to where the handler starts are as before, and so is the top. -/
lemma registers_result (enter : HostProgram σ → MachineM σ Nat) (op : Operator) {a b : Value} (hwindow : base + registerWindow ≤ stackLimit)
    (ha : m.state.stack.get (base + (Instruction.decode word).b.toNat) = a)
    (hb : m.state.stack.get (base + (Instruction.decode word).c.toNat) = b) :
    let x := (op.plan m.state a b).follow enter (m.withState (m.state.aboveRegisters base))
    let z := op.onRegisters enter word base m
    z.1 = x.1 ∧ x.2.Related Agree z.2 ∧ z.2.state.top = m.state.top ∧
      ∀ slot, slot ≠ base + (Instruction.decode word).a.toNat →
        z.2.state.stack.get slot = x.2.state.stack.get slot := by
  intro x z
  have hwindow' : registerWindow = 256 := rfl
  have hA := (Instruction.decode word).a.toNat_lt
  have hinstruction : instruction enter op.opCode.code word base m =
      andThen (x.1, x.2.withState (x.2.state.withTop m.state.top))
        (lift ∘ setRegister base (Instruction.decode word).a.toNat) := by
    rw [instruction_of_ok enter (operands_eq hwindow m.state)]
    dsimp only
    rw [ha, hb, operation_apply]
    rfl
  have hz : z = andThen (instruction enter op.opCode.code word base m) fun _ k =>
      (.ok (k.state.stack.get (base + (Instruction.decode word).a.toNat)), k) := by
    exact bind_apply _ _ m
  generalize x = y at *
  obtain ⟨r | v, k⟩ := y
  · rw [hz, hinstruction]
    exact ⟨rfl, ⟨.of_stack _ _ _, rfl, rfl⟩, rfl, fun _ _ => rfl⟩
  · have hset := setRegister_apply (show base + (Instruction.decode word).a.toNat < stackLimit by omega)
      v (k.state.withTop m.state.top)
    rw [hz, hinstruction, andThen_ok, Function.comp_apply, lift_apply, Machine.state_withState, hset,
      andThen_ok]
    refine ⟨?_, ⟨.of_stack _ _ _, rfl, rfl⟩, rfl, fun slot hslot => ?_⟩
    · rw [Machine.state_withState, stack_withStack, Slots.get_set, if_pos ⟨rfl, by omega⟩]
    · rw [Machine.withState_withState, Machine.state_withState, stack_withStack, Slots.get_set,
        if_neg fun h => hslot h.1.symm, stack_withTop]

end Registers

/-! ## Agreement -/

/-- An operator plans the same on the same operands in states that agree. -/
lemma plan_eq (op : Operator) {s t : State} (h : s.Agree t) {a b b' : Value}
    (hb : op ≠ negate → b' = b) : op.plan t a b' = op.plan s a b := by
  cases op with
  | arith op =>
    rw [hb (fun h => by cases h), plan_arith, plan_arith, h.arithPlan_eq]
  | negate => rw [plan_negate _ _ b', plan_negate _ _ b, h.negatePlan_eq]
  | lessEqual =>
    rw [hb (fun h => by cases h), plan_lessEqual, plan_lessEqual, h.lessEqualPlan_eq]

end Operator

namespace Invocation

/-- All that an invocation comes through is relative to frames. -/
def RunsRelative (levels : Nat) (m : Machine σ) (i : Invocation) : Prop :=
  ∀ body k, i.enters? m = some (body, k) →
    ∀ c, Configuration.Visits ⟨levels, body, k⟩ c → c.AsksRelative

/-- There is room on the stack for an invocation and all that it comes through. -/
def RunFits (levels : Nat) (m : Machine σ) (i : Invocation) : Prop :=
  i.Fits (HostProgram.runWithin (levels + 1)) m ∧ ∀ body k, i.enters? m = some (body, k) →
    ∀ c, Configuration.Visits ⟨levels, body, k⟩ c → c.Fits

end Invocation

/-- What is tidy above the top and leaves the top where it is keeps the values of the frame. -/
lemma State.Tidy.view_eq {s t : State} (h : s.Tidy s.top t) (htop : t.top = s.top) :
    t.view = s.view := by
  rw [view_eq_segment, view_eq_segment, htop, h.base]
  exact Slots.segment_congr fun i _ hi => h.below i hi

namespace Operator

open State

/-- A program is entered in a place, and all that it comes through in another place it comes through
there too, in frames with the same values. -/
def EntersAlike (levels : Nat) (body : HostProgram σ) (k : Machine σ)
    (entered : Option (HostProgram σ × Machine σ)) : Prop :=
  ∃ k', entered = some (body, k') ∧ k.Related Alike k' ∧
    ∀ c, Configuration.Visits ⟨levels, body, k⟩ c →
      ∃ d, Configuration.Visits ⟨levels, body, k'⟩ d ∧ c.Alike d

/-- An operator follows its plan alike in two machines that agree, and enters its handler alike. -/
lemma plan_forms_agree {levels : Nat} {m n : Machine σ} (hm : m.state.Bounded) (hn : n.state.Bounded)
    (h : m.Related Agree n) {p : Plan Value} (hfits : p.Fits m.state.top) (hfits' : p.Fits n.state.top)
    (hx : ∀ body k, p.enters? m = some (body, k) →
      ∀ c, Configuration.Visits ⟨levels, body, k⟩ c → c.AsksRelative ∧ c.Fits)
    (hy : ∀ body k, p.enters? n = some (body, k) →
      ∀ c, Configuration.Visits ⟨levels, body, k⟩ c → c.Fits) :
    MachineM.Relocates (p.follow (HostProgram.runWithin (levels + 1)))
      (AlikeFrom m.state.top n.state.top) m.state.top n.state.top m n ∧
    ∀ body k, p.enters? m = some (body, k) → EntersAlike levels body k (p.enters? n) := by
  constructor
  · refine MachineM.relocates_follow hm hn h p hfits hfits' (Configuration.enters_runWithin ?_ ?_)
    · rintro l body k hl hk c hc
      obtain rfl : levels = l := Nat.succ.inj hl
      exact hx body k hk c hc
    · rintro l body k hl hk c hc
      obtain rfl : levels = l := Nat.succ.inj hl
      exact hy body k hk c hc
  · intro body k hk
    obtain ⟨k', hk', hrelated⟩ := MachineM.plan_enters?_related hm hn h p hfits hfits' hk
    exact ⟨k', hk', hrelated, fun c hc => hc.alike ⟨rfl, rfl, hrelated⟩ (hx body k hk) (hy body k' hk')⟩

/-- **The forms of an operator agree.** Take any operator and any two operands, and three machines that
are the same apart from their stacks; in the second one two indices of the frame refer to the
operands, in the third one the registers `B` and `C` of an instruction hold them (a negation needs the
first operand only). If the handlers that are called work relative to their frames, and there is room
on all three stacks, then the operator on the values, on the indices and on the registers gives the
same result or the same error and leaves the same heap. The values of the frames stay, with the result
of an arithmetic operator on indices on top of them; of the slots and registers below those of a
handler, only the register `A` is changed. And what a handler comes through in the first form, it
comes through in the other two, in frames with the same values.

*Proof sketch.* The plan of an operator depends on the operands and the heap only, so it is the same in
all three machines, and it is followed in each of them from its top on, in the third one above all
registers. A handler is entered with the same values in its frame, and it does not tell where this
lies. -/
theorem forms_agree (op : Operator) {levels : Nat} {m mi mr : Machine σ} {a b : Value} {i j : Int}
    {word : UInt32} {base : Nat} (hm : m.state.Bounded) (hmi : mi.state.Bounded)
    (hmr : mr.state.Bounded) (hi : m.Related Agree mi) (hr : m.Related Agree mr)
    (hia : mi.state.valueAt i = a) (hjb : op ≠ negate → mi.state.valueAt j = b)
    (hBa : mr.state.stack.get (base + (Instruction.decode word).b.toNat) = a)
    (hCb : op ≠ negate → mr.state.stack.get (base + (Instruction.decode word).c.toNat) = b)
    (hrelative : (op.values a b).RunsRelative levels m) (hfits : (op.values a b).RunFits levels m)
    (hfitsi : (op.indices i j).RunFits levels mi)
    (hfitsr : (op.registers word base).RunFits levels mr) :
    let enter : HostProgram σ → MachineM σ Nat := HostProgram.runWithin (levels + 1)
    let x := op.onValues enter a b m
    let y := op.onIndices enter i j mi
    let z := op.onRegisters enter word base mr
    (y.1 = x.1 ∧ z.1 = x.1) ∧ (x.2.Related Agree y.2 ∧ x.2.Related Agree z.2) ∧
    (x.2.state.view = m.state.view ∧ y.2.state.view = mi.state.view ++ op.pushed x.1) ∧
    (z.2.state.top = mr.state.top ∧ ∀ slot < max mr.state.top (base + registerWindow),
      slot ≠ base + (Instruction.decode word).a.toNat →
        z.2.state.stack.get slot = mr.state.stack.get slot) ∧
    ∀ body k, (op.values a b).enters? m = some (body, k) →
      EntersAlike levels body k ((op.indices i j).enters? mi) ∧
      EntersAlike levels body k ((op.registers word base).enters? mr) := by
  intro enter x y z
  have hwindow := hfitsr.1.1
  have hplani : op.plan mi.state (mi.state.valueAt i) (mi.state.valueAt j) = op.plan m.state a b := by
    rw [hia]
    exact op.plan_eq hi.state hjb
  have hplanr : op.plan mr.state (mr.state.stack.get (base + (Instruction.decode word).b.toNat))
      (mr.state.stack.get (base + (Instruction.decode word).c.toNat)) = op.plan m.state a b := by
    rw [hBa]
    exact op.plan_eq hr.state hCb
  -- the third form follows the plan above the registers
  have hmr' : (mr.withState (mr.state.aboveRegisters base)).state.Bounded :=
    ⟨hmr.base_le.trans (le_max_left _ _), max_le hmr.top_le hwindow⟩
  have hr' : m.Related Agree (mr.withState (mr.state.aboveRegisters base)) :=
    ⟨hr.state.trans (.of_stack mr.state mr.state.stack _), hr.bodies, hr.host⟩
  have hx : ∀ body k, (op.plan m.state a b).enters? m = some (body, k) →
      ∀ c, Configuration.Visits ⟨levels, body, k⟩ c → c.AsksRelative ∧ c.Fits := by
    intro body k hk c hc
    rw [← enters?_values] at hk
    exact ⟨hrelative body k hk c hc, hfits.2 body k hk c hc⟩
  have hfitp := fits_values.mp hfits.1
  have hfitpi := fits_of_indices hfitsi.1
  have hfitpr := (fits_registers.mp hfitsr.1).2
  have hrunsi := hfitsi.2
  have hrunsr := hfitsr.2
  rw [hplani] at hfitpi
  rw [hplanr] at hfitpr
  rw [enters?_indices, hplani] at hrunsi ⊢
  rw [enters?_registers hwindow, hplanr] at hrunsr ⊢
  obtain ⟨⟨hresulti, hrelatedi, htidy, htidyi⟩, hentersi⟩ :=
    plan_forms_agree hm hmi hi hfitp hfitpi.1 hx hrunsi
  obtain ⟨⟨hresultr, hrelatedr, -, htidyr⟩, hentersr⟩ :=
    plan_forms_agree hm hmr' hr' hfitp hfitpr hx hrunsr
  have hxplan : x = (op.plan m.state a b).follow enter m := onValues_apply op a b m
  have hindices := indices_result enter mi op i j
  rw [hplani] at hindices
  obtain ⟨hy, hagreey, hviewy⟩ := hindices (htidyi.bounded hmi.base_le) hfitpi.2
  obtain ⟨hz, hagreez, htopz, hslots⟩ := registers_result enter op hwindow rfl rfl
  rw [hplanr] at hz hagreez hslots
  rw [← hxplan] at hresulti hresultr hrelatedi hrelatedr htidy
  refine ⟨⟨?_, ?_⟩, ⟨?_, ?_⟩, ⟨?_, ?_⟩, ⟨htopz, fun slot hslot hne => ?_⟩, fun body k hk => ?_⟩
  · exact hy.trans hresulti
  · exact hz.trans hresultr
  · exact ⟨hrelatedi.state.toAgree.trans hagreey.state, hagreey.bodies.trans hrelatedi.bodies,
      hagreey.host.trans hrelatedi.host⟩
  · exact ⟨hrelatedr.state.toAgree.trans hagreez.state, hagreez.bodies.trans hrelatedr.bodies,
      hagreez.host.trans hrelatedr.host⟩
  · exact htidy.view_eq (by rw [hxplan]; exact MachineM.top_follow _ _ m)
  · rw [hviewy, htidyi.view_eq (MachineM.top_follow _ _ mi), hresulti]
  · rw [hslots slot hne]
    exact htidyr.below slot hslot
  · rw [enters?_values] at hk
    exact ⟨hentersi body k hk, hentersr body k hk⟩

end Operator

/-! ## An object with a handler -/

/-- The heap of a new machine with a table that has the function `0` as its handler for addition. The
table has the handle `3`, and its metatable the handle `4`. -/
def handledHeap : Heap :=
  let h := (State.new.heap.intern (Text.bytes "__add")).2
  { h with tables.items := h.tables.items ++ #[⟨∅, some 4⟩,
      Table.empty.set (.string (State.new.heap.intern (Text.bytes "__add")).1) (.function 0)] }

/-- A machine with that table and a truth value on the stack. The handler returns its last
argument. -/
def handledMachine : Machine Unit :=
  let m := (Machine.new ()).addFunction "last" (.done 1) #[]
  m.withState ((({ m.state with heap := handledHeap } : State).withStack
    (Slots.empty.write 0 [.table 3, .bool true])).withTop 2)

/-- The instruction that adds the registers `0` and `1` into the register `2`. -/
def addWord : UInt32 := Instruction.encode ⟨OpCode.add.code, 2, 0, 1⟩

section Handled

lemma handledMachine_top : handledMachine.state.top = 2 := rfl

lemma handledMachine_heap : handledMachine.state.heap = handledHeap := rfl

lemma handledMachine_bodies : handledMachine.bodies = #[.done 1] := rfl

lemma handledMachine_stack :
    handledMachine.state.stack = Slots.empty.write 0 [.table 3, .bool true] := by
  rw [handledMachine, Machine.state_withState, State.stack_withTop, State.stack_withStack]

lemma handledMachine_bounded : handledMachine.state.Bounded :=
  ⟨Nat.zero_le _, by rw [handledMachine_top]; decide⟩

lemma handledHeap_tables :
    handledHeap.tables.get? 3 = some ⟨∅, some 4⟩ ∧ handledHeap.tables.get? 4 = some
      (Table.empty.set (.string (State.new.heap.intern (Text.bytes "__add")).1) (.function 0)) := by
  have hsize : State.new.heap.tables.items.size = 3 := by
    simp only [State.new, Arena.modify, Array.size_modify, Heap.tables_intern]
    rfl
  rw [handledHeap]
  simp only [Arena.get?, Heap.tables_intern, Array.getElem?_append, hsize]
  exact ⟨rfl, rfl⟩

lemma handledHeap_metatableOf : handledHeap.metatableOf (.table 3) = some 4 := by
  have hobject : (Value.table 3).object? = some (.table 3) := by decide
  rw [Heap.metatableOf, hobject]
  dsimp only
  rw [handledHeap_tables.1]
  rfl

lemma handledHeap_metafield : handledHeap.metafield (.table 3) "__add" = .function 0 := by
  have hname : handledHeap.find? (Text.bytes "__add") =
      some (State.new.heap.intern (Text.bytes "__add")).1 := Heap.find?_intern _ _
  rw [Heap.metafield, handledHeap_metatableOf, hname]
  dsimp only
  rw [Heap.tableGet, handledHeap_tables.2]
  dsimp only
  rw [Table.get_set, if_pos rfl]
  rfl

/-- The addition of the table and the truth value calls the handler on them. -/
lemma handledMachine_plan : (Operator.arith .add).plan handledMachine.state (.table 3) (.bool true) =
    .handle (.function 0) [.table 3, .bool true] id := by
  have hnumber : (Value.table 3).number? = none := by decide
  have hstring : (Value.table 3).string? = none := by decide
  have hcoerce : handledMachine.state.coerceNumber (.table 3) = none := by
    rw [State.coerceNumber, State.text?, State.bytes?, hnumber, hstring]
    rfl
  have hhandler : handledMachine.state.handler? "__add" (.table 3) = some (.function 0) := by
    rw [State.handler?, State.classify, hnumber, hstring, handledMachine_heap,
      handledHeap_metatableOf, handledHeap_metafield]
    rfl
  rw [Operator.plan_arith, State.arithPlan, hcoerce]
  dsimp only
  rw [State.operatorHandler?, ArithOp.event, List.findSome?_cons, hhandler]
  rfl

/-- The handler is entered. -/
lemma handledMachine_enters :
    ∃ k, ((Operator.arith .add).values (.table 3) (.bool true)).enters? handledMachine =
      some (.done 1, k) := by
  have hpush := State.pushAll_of_fits [.function 0, .table 3, .bool true] handledMachine.state
    (by rw [handledMachine_top]; decide)
  rw [handledMachine_top, handledMachine_stack] at hpush
  rw [Operator.enters?_values, handledMachine_plan, Plan.enters?, hpush]
  have hcallee : (MachineM.callee 2 (handledMachine.withState
      ((handledMachine.state.withStack ((Slots.empty.write 0 [.table 3, .bool true]).write 2
        [.function 0, .table 3, .bool true])).withTop 5))).1 = .ok (2, 0, .done 1) := by
    refine MachineM.callee_eq_ok_iff.mpr ⟨by decide, rfl, ?_, rfl, by decide⟩
    simp only [Machine.state_withState, State.stack_withTop, State.stack_withStack, Slots.write,
      Slots.get_set]
    decide
  exact ⟨_, Machine.callEnters?_of_callee hcallee⟩

/-- All that is entered is the handler, which is at its end at once. -/
lemma visits_handled {levels : Nat} {m k : Machine Unit} {i : Invocation} {body : HostProgram Unit}
    (hm : m.bodies = #[.done 1]) (hk : i.enters? m = some (body, k)) {c : Configuration Unit}
    (hc : Configuration.Visits ⟨levels, body, k⟩ c) : c.AsksRelative ∧ c.Fits := by
  obtain ⟨-, hbody⟩ := Invocation.enters?_withState hk
  rw [hm, Array.mem_singleton] at hbody
  subst hbody
  cases hc with
  | start => exact ⟨trivial, trivial⟩
  | step h => cases h

end Handled

/-- The three forms of an addition with a handler agree: on the values, on the indices `1` and `2`, and
on the registers `0` and `1`. -/
theorem Operator.handled_forms_agree :
    let enter : HostProgram Unit → MachineM Unit Nat := HostProgram.runWithin (199 + 1)
    let op := Operator.arith .add
    (∃ k, (op.values (.table 3) (.bool true)).enters? handledMachine = some (.done 1, k)) ∧
    handledMachine.state.valueAt 1 = .table 3 ∧ handledMachine.state.valueAt 2 = .bool true ∧
    handledMachine.state.stack.get 0 = .table 3 ∧ handledMachine.state.stack.get 1 = .bool true ∧
    (op.onIndices enter 1 2 handledMachine).1 =
      (op.onValues enter (.table 3) (.bool true) handledMachine).1 ∧
    (op.onRegisters enter addWord 0 handledMachine).1 =
      (op.onValues enter (.table 3) (.bool true) handledMachine).1 := by
  intro enter op
  have hdecode : Instruction.decode addWord = ⟨OpCode.add.code, 2, 0, 1⟩ :=
    Instruction.decode_encode _
  have hslot₀ : handledMachine.state.stack.get 0 = .table 3 := by
    rw [handledMachine_stack]
    simp only [Slots.write, Slots.get_set]
    decide
  have hslot₁ : handledMachine.state.stack.get 1 = .bool true := by
    rw [handledMachine_stack]
    simp only [Slots.write, Slots.get_set]
    decide
  have hB : handledMachine.state.stack.get (0 + (Instruction.decode addWord).b.toNat) = .table 3 := by
    rw [hdecode]
    exact hslot₀
  have hC : handledMachine.state.stack.get (0 + (Instruction.decode addWord).c.toNat) = .bool true := by
    rw [hdecode]
    exact hslot₁
  have hindex₁ : handledMachine.state.valueAt 1 = .table 3 := hslot₀
  have hindex₂ : handledMachine.state.valueAt 2 = .bool true := hslot₁
  have hself : handledMachine.Related State.Agree handledMachine := ⟨.refl _, rfl, rfl⟩
  have hroom : ∀ top, top ≤ 256 →
      (op.plan handledMachine.state (.table 3) (.bool true)).Fits top := by
    intro top htop
    have hlimit : stackLimit = 65536 := rfl
    rw [handledMachine_plan]
    change top + 3 ≤ stackLimit
    omega
  have hwindow : 0 + State.registerWindow ≤ stackLimit := by decide
  have hvisits : ∀ i : Invocation, ∀ body k, i.enters? handledMachine = some (body, k) →
      ∀ c, Configuration.Visits ⟨199, body, k⟩ c → c.AsksRelative ∧ c.Fits :=
    fun _ _ _ hk _ hc => visits_handled handledMachine_bodies hk hc
  have hvalues : (op.values (.table 3) (.bool true)).Fits enter handledMachine :=
    Operator.fits_values.mpr (hroom _ (by rw [handledMachine_top]; decide))
  have hindices : (op.indices 1 2).Fits enter handledMachine := by
    refine ⟨?_, fun _ _ => by rw [handledMachine_top]; decide⟩
    rw [hindex₁, hindex₂, ← Operator.plan_arith]
    exact hroom _ (by rw [handledMachine_top]; decide)
  have hregisters : (op.registers addWord 0).Fits enter handledMachine := by
    refine Operator.fits_registers.mpr ⟨hwindow, ?_⟩
    rw [hB, hC]
    exact hroom _ (by decide)
  obtain ⟨hresults, -⟩ := Operator.forms_agree op handledMachine_bounded handledMachine_bounded
    handledMachine_bounded hself hself hindex₁ (fun _ => hindex₂) hB (fun _ => hC)
    (fun body k hk c hc => (hvisits _ body k hk c hc).1)
    ⟨hvalues, fun body k hk c hc => (hvisits _ body k hk c hc).2⟩
    ⟨hindices, fun body k hk c hc => (hvisits _ body k hk c hc).2⟩
    ⟨hregisters, fun body k hk c hc => (hvisits _ body k hk c hc).2⟩
  exact ⟨handledMachine_enters, hindex₁, hindex₂, hslot₀, hslot₁, hresults⟩

end ScriptCore
