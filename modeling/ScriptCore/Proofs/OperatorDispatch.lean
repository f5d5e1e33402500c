import Mathlib
import ScriptCore.Proofs.CorrespondingStates
import ScriptCore.Proofs.FrameSteps
import ScriptCore.Proofs.StackLimits

set_option relaxedAutoImplicit false
set_option autoImplicit false

/-!
# What operators do with their operands

Operands that stand for numbers are computed with, and two numbers or two strings are compared as they
are. All else is up to the handlers: they are tried in an order, each is looked for on one operand after
the other, and the first one that is found is called. What the call gives is what the handler comes back
with, the first result of it, or an error.

## Main definitions

* `ScriptCore.State.StandsFor` — the number an operand stands for.
* `ScriptCore.Heap.HasHandler`, `ScriptCore.Heap.FindsHandler` — the handlers of values.
* `ScriptCore.MachineM.CallGives` — what a call of a handler gives.
* `ScriptCore.MachineM.Resorts` — handlers that are tried in an order.

## Main results

* `ScriptCore.MachineM.callGives_callHandler` — a handler is called once, with the arguments.
* `ScriptCore.MachineM.operators_dispatch` — the rule of all operators.
-/

namespace ScriptCore

/-! ## Operands -/

namespace Value

variable {v : Value} {i : ℕ}

lemma number?_of_string (h : v.string? = some i) : v.number? = none :=
  number?_eq_none (tag_ne_zero_of_object? (object?_of_string? h))

/-- A table or an object of the host is no string. -/
lemma string?_of_object {o : Object} (h : v.object? = some o) (ho : ∀ j, o ≠ .string j) :
    v.string? = none := by
  cases hs : v.string? with
  | none => rfl
  | some j => exact absurd (Option.some.inj (h.symm.trans (object?_of_string? hs))) (ho j)

end Value

namespace State

/-- **The number a value stands for**: a number stands for itself, and a string that holds the text of a
numeral for the value of that. -/
inductive StandsFor (s : State) (v : Value) : Binary64 → Prop
  | number {x : Binary64} (hx : v.number? = some x) : StandsFor s v x
  | numeral {i : ℕ} {content : List UInt8} {text : String} {x : Binary64} (hv : v.string? = some i)
    (hcontent : s.heap.strings.get? i = some content) (htext : Text.ofBytes? content = some text)
    (hx : Numeral.ofText? text = some x) : StandsFor s v x

lemma standsFor_iff {s : State} {v : Value} {x : Binary64} :
    s.StandsFor v x ↔ s.coerceNumber v = some x := by
  constructor
  · rintro (hx | ⟨hv, hcontent, htext, hx⟩)
    · rw [coerceNumber, hx]
      rfl
    · rw [coerceNumber, Value.number?_of_string hv, text?, bytes?, hv, Option.bind_some, hcontent,
        Option.bind_some, htext, Option.bind_some, hx]
      rfl
  · intro h
    rw [coerceNumber] at h
    cases hv : v.number? with
    | some y =>
      rw [hv] at h
      exact .number (hv.trans h)
    | none =>
      rw [hv] at h
      obtain ⟨text, htext, hx⟩ := Option.bind_eq_some_iff.mp h
      obtain ⟨content, hcontent, htext⟩ := Option.bind_eq_some_iff.mp htext
      obtain ⟨i, hi, hcontent⟩ := Option.bind_eq_some_iff.mp hcontent
      exact .numeral hi hcontent htext hx

end State

/-! ## Handlers -/

namespace Heap

/-- **The handler of a value for an event**: the value is a table or an object of the host with a
metatable, and this has the handler under the name of the event. Nil is no handler. -/
def HasHandler (h : Heap) (event : String) (v f : Value) : Prop :=
  ∃ o mt t key, v.object? = some o ∧ h.HasMetatable o mt ∧ h.tables.get? mt = some t ∧
    h.find? (Text.bytes event) = some key ∧ t.get (.string key) = f ∧ f.isNil = false

/-- **The handler of operands for an event** is that of the first one that has any. -/
inductive FindsHandler (h : Heap) (event : String) : List Value → Value → Prop
  | here {v f : Value} {vs : List Value} (hf : h.HasHandler event v f) : FindsHandler h event (v :: vs) f
  | later {v f : Value} {vs : List Value} (hv : ∀ g, ¬ h.HasHandler event v g)
    (hf : FindsHandler h event vs f) : FindsHandler h event (v :: vs) f

variable {h : Heap} {event : String} {v f : Value} {o : Object} {mt : ℕ}

lemma metatableOf_of_hasMetatable (hv : v.object? = some o) (hmt : h.HasMetatable o mt) :
    h.metatableOf v = some mt := by
  rw [metatableOf, hv]
  cases hmt with
  | table ht hmt => exact Option.bind_eq_some_iff.mpr ⟨_, ht, hmt⟩
  | userdata hu hmt =>
    exact Option.bind_eq_some_iff.mpr ⟨_, Option.join_eq_some_iff.mpr hu, hmt⟩

lemma HasMetatable.ne_string (hmt : h.HasMetatable o mt) (i : ℕ) : o ≠ .string i := by
  cases hmt <;> exact nofun

/-- A handler is a field of the metatable that is not nil. -/
lemma hasHandler_iff : h.HasHandler event v f ↔
    (∃ mt, h.metatableOf v = some mt) ∧ h.metafield v event = f ∧ f.isNil = false := by
  constructor
  · rintro ⟨o, mt, t, key, hv, hmt, ht, hkey, hf, hnil⟩
    have hmt' := metatableOf_of_hasMetatable hv hmt
    refine ⟨⟨mt, hmt'⟩, ?_, hnil⟩
    rw [metafield, hmt', hkey]
    dsimp only
    rw [tableGet, ht]
    exact hf
  · rintro ⟨⟨mt, hmt⟩, hf, hnil⟩
    obtain ⟨o, hv, hmt'⟩ := hasMetatable_of_metatableOf hmt
    have hnone : ∀ {g : Value}, .nil = g → g.isNil = false → False := by
      rintro g rfl hg
      exact absurd hg (by decide)
    rw [metafield, hmt] at hf
    cases hkey : h.find? (Text.bytes event) with
    | none =>
      rw [hkey] at hf
      exact (hnone hf hnil).elim
    | some key =>
      rw [hkey] at hf
      cases ht : h.tables.get? mt with
      | none =>
        dsimp only at hf
        rw [tableGet, ht] at hf
        exact (hnone hf hnil).elim
      | some t =>
        dsimp only at hf
        rw [tableGet, ht] at hf
        exact ⟨o, mt, t, key, hv, hmt', ht, hkey, hf, hnil⟩

/-- A string has no handler. -/
lemma not_hasHandler_of_string {i : ℕ} (hv : v.string? = some i) : ¬ h.HasHandler event v f := by
  rintro ⟨o, mt, t, key, ho, hmt, -⟩
  rw [Value.string?_of_object ho hmt.ne_string] at hv
  cases hv

/-- A number has no handler. -/
lemma not_hasHandler_of_number {x : Binary64} (hv : v.number? = some x) : ¬ h.HasHandler event v f := by
  rintro ⟨o, mt, t, key, ho, hmt, -⟩
  rw [Value.number?_eq_none (Value.tag_ne_zero_of_object? ho)] at hv
  cases hv

/-- Where no operand has a handler, none is found. -/
lemma not_findsHandler {operands : List Value} (hno : ∀ v ∈ operands, ∀ g, ¬ h.HasHandler event v g) :
    ¬ h.FindsHandler event operands f := by
  intro hf
  induction hf with
  | here hf => exact hno _ List.mem_cons_self _ hf
  | later hv hf ih => exact ih fun v hv => hno v (List.mem_cons_of_mem _ hv)

end Heap

namespace State

variable {s : State} {event : String} {f : Value}

lemma handler?_eq_some_iff {v : Value} : s.handler? event v = some f ↔ s.heap.HasHandler event v f := by
  rw [handler?_eq]
  constructor
  · intro h
    split at h
    · next mt _ _ hmt =>
      split at h
      · cases h
      · next hnil => exact Heap.hasHandler_iff.mpr ⟨⟨mt, hmt⟩, Option.some.inj h,
          Option.some.inj h ▸ eq_false_of_ne_true hnil⟩
    · cases h
  · intro h
    obtain ⟨o, mt, t, key, ho, hmt, -⟩ := id h
    obtain ⟨-, hf, hnil⟩ := Heap.hasHandler_iff.mp h
    rw [Value.number?_eq_none (Value.tag_ne_zero_of_object? ho),
      Value.string?_of_object ho hmt.ne_string, Heap.metatableOf_of_hasMetatable ho hmt]
    dsimp only
    rw [hf, if_neg (by rw [hnil]; exact Bool.false_ne_true)]

lemma operatorHandler?_eq_some_iff {operands : List Value} :
    s.operatorHandler? event operands = some f ↔ s.heap.FindsHandler event operands f := by
  rw [operatorHandler?]
  induction operands with
  | nil =>
    constructor
    · intro h
      cases h
    · intro h
      cases h
  | cons v vs ih =>
    rw [List.findSome?_cons]
    cases hv : s.handler? event v with
    | some g =>
      have hg := handler?_eq_some_iff.mp hv
      constructor
      · intro h
        exact .here (Option.some.inj h ▸ hg)
      · rintro (hf | ⟨hno, -⟩)
        · exact hv.symm.trans (handler?_eq_some_iff.mpr hf)
        · exact absurd hg (hno g)
    | none =>
      have hno : ∀ g, ¬ s.heap.HasHandler event v g := fun g hg => by
        rw [handler?_eq_some_iff.mpr hg] at hv
        cases hv
      constructor
      · intro h
        exact .later hno (ih.mp h)
      · rintro (hf | ⟨-, hf⟩)
        · exact absurd hf (hno f)
        · exact ih.mpr hf

lemma operatorHandler?_eq_none_iff {operands : List Value} :
    s.operatorHandler? event operands = none ↔ ∀ f, ¬ s.heap.FindsHandler event operands f := by
  simp only [← operatorHandler?_eq_some_iff, Option.eq_none_iff_forall_ne_some, ne_eq]

end State

/-! ## Calls of handlers -/

/-- The machine `n` is `m`, but for what is on the stack. -/
def Machine.Restacks {σ : Type} (m n : Machine σ) : Prop :=
  ∃ stack top, n = m.withState ((m.state.withStack stack).withTop top)

namespace Machine.Restacks

variable {σ : Type} {m n k : Machine σ}

lemma refl (m : Machine σ) : m.Restacks m := ⟨m.state.stack, m.state.top, rfl⟩

lemma trans (h : m.Restacks n) (h' : n.Restacks k) : m.Restacks k := by
  obtain ⟨stack, top, rfl⟩ := h
  obtain ⟨stack', top', rfl⟩ := h'
  exact ⟨stack', top', rfl⟩

/-- What is pushed changes the stack only, whether there is room or not. -/
lemma pushAll (vs : List Value) (s : State) :
    ∃ stack top, (State.pushAll vs s).2 = (s.withStack stack).withTop top := by
  induction vs generalizing s with
  | nil => exact ⟨s.stack, s.top, rfl⟩
  | cons v vs ih =>
    rw [State.pushAll_cons, bind_apply, State.push_apply]
    split
    · exact ⟨s.stack, s.top, rfl⟩
    · obtain ⟨stack, top, h⟩ := ih ((s.withStack (s.stack.set s.top v)).withTop (s.top + 1))
      exact ⟨stack, top, h⟩

lemma unwind {slot : ℕ} (h : m.Restacks n) (htop : n.state.top ≤ stackLimit) (hslot : slot ≤ stackLimit) :
    m.Restacks (n.withState (n.state.unwind slot)) :=
  h.trans ⟨_, _, congrArg n.withState (State.unwind_of_le htop hslot)⟩

end Machine.Restacks

namespace State

/-- Where one result is wanted, the first one of those that are there takes the place of the function, or
nil if there is none. -/
lemma returnResults_one {s : State} {slot : ℕ} (produced : ℕ) (hslot : slot < stackLimit)
    (htop : s.top ≤ stackLimit) :
    ∃ stack, returnResults slot produced 1 s = (.ok (), (s.withStack stack).withTop (slot + 1)) ∧
      stack.get slot = ((s.stack.segment (slot + 1) s.top).rtake produced).headD .nil := by
  have hreturn := returnResults_apply slot produced 1 s
  have hlength := Slots.length_segment s.stack (slot + 1) s.top
  dsimp only at hreturn
  generalize hn : min produced (s.top - (slot + 1)) = n at hreturn
  have hkept : kept n 1 = 1 := by rw [kept, if_neg (by decide)]; rfl
  rw [hkept, if_neg (by omega), clear_of_le _ _ (by omega)] at hreturn
  refine ⟨_, hreturn, ?_⟩
  rw [stack_withStack, Slots.get_fill, List.headD_eq_head?_getD, List.rtake, List.head?_drop, hlength,
    Slots.getElem?_segment]
  by_cases hnone : n = 0
  · rw [if_pos (by omega), if_neg (by omega)]
    rfl
  · rw [if_neg (by omega), Slots.get_moveDown _ _ _ _ _ (by omega) (by omega), if_pos (by omega),
      if_pos (by omega), Option.getD_some]
    congr 1
    omega

end State

namespace MachineM

open State

variable {σ α : Type} {enter : HostProgram σ → MachineM σ ℕ} {m : Machine σ} {h : Value}
  {args : List Value}

/-- **What a call of a handler gives**, and what is left behind it but for the stack. With its arguments, the
handler may not fit on the stack. It may be no function, or there may be no room for its frame. Otherwise it
starts to run with these arguments, once, in a frame of its own, and what is left is what it leaves when this
is closed. It may fail, and the error is that of the call; or it comes back, and the call gives the first of
its results, or nil if it has none. -/
inductive CallGives (enter : HostProgram σ → MachineM σ ℕ) (m : Machine σ) (h : Value)
    (args : List Value) : Except RuntimeError Value → Machine σ → Prop
  | overflow {z : Machine σ} (hover : stackLimit < m.state.top + (h :: args).length) (hz : m.Restacks z) :
    CallGives enter m h args (.error .stackOverflow) z
  | notCallable {z : Machine σ} (hroom : m.state.top + (h :: args).length ≤ stackLimit)
    (hh : ∀ i, h.function? = some i → m.bodies[i]? = none) (hz : m.Restacks z) :
    CallGives enter m h args (.error (.notCallable h.typeName)) z
  | tooDeep {i : ℕ} {body : HostProgram σ} {z : Machine σ}
    (hroom : m.state.top + (h :: args).length ≤ stackLimit) (hh : h.function? = some i)
    (hbody : m.bodies[i]? = some body) (hframes : maxFrames ≤ m.state.frames.length) (hz : m.Restacks z) :
    CallGives enter m h args (.error .stackOverflow) z
  | fails {i : ℕ} {body : HostProgram σ} {e : RuntimeError} {n z : Machine σ}
    (hroom : m.state.top + (h :: args).length ≤ stackLimit) (hh : h.function? = some i)
    (hbody : m.bodies[i]? = some body) (hframes : m.state.frames.length < maxFrames)
    (hn : enter body (m.started h args i) = (.error e, n)) (hz : n.left.Restacks z) :
    CallGives enter m h args (.error e) z
  | returns {i : ℕ} {body : HostProgram σ} {produced : ℕ} {n z : Machine σ}
    (hroom : m.state.top + (h :: args).length ≤ stackLimit) (hh : h.function? = some i)
    (hbody : m.bodies[i]? = some body) (hframes : m.state.frames.length < maxFrames)
    (hn : enter body (m.started h args i) = (.ok produced, n)) (hz : n.left.Restacks z) :
    CallGives enter m h args
      (.ok (((n.state.stack.segment (m.state.top + 1) n.state.top).rtake produced).headD .nil)) z

/-- Where what was put on top of everything is not called, it is no function, or there is no room for its
frame. -/
lemma callee_handed_error {e : RuntimeError} (hbase : m.state.base ≤ m.state.top)
    (hroom : m.state.top + (h :: args).length ≤ stackLimit)
    (hc : (callee args.length (m.handed h args)).1 = .error e) :
    (∀ i, h.function? = some i → m.bodies[i]? = none) ∧ e = .notCallable h.typeName ∨
      ∃ i body, h.function? = some i ∧ m.bodies[i]? = some body ∧ maxFrames ≤ m.state.frames.length ∧
        e = .stackOverflow := by
  have htop : (m.handed h args).state.top = m.state.top + (args.length + 1) := rfl
  have hsize : (m.handed h args).state.size = m.state.top + (args.length + 1) - m.state.base := rfl
  have hslot : (m.handed h args).state.top - args.length - 1 = m.state.top := by omega
  have hbodies : (m.handed h args).bodies = m.bodies := rfl
  have hframes : (m.handed h args).state.frames = m.state.frames := rfl
  simp only [callee, bind_apply, get_apply, andThen_ok, ite_run, throw_apply] at hc
  rw [if_neg (by omega), hslot, Machine.handed_function hroom, hbodies, hframes] at hc
  cases hh : h.function? with
  | none =>
    rw [hh] at hc
    refine .inl ⟨fun i hi => ?_, (Except.error.inj hc).symm⟩
    cases hi
  | some i =>
    cases hbody : m.bodies[i]? with
    | none =>
      rw [hh, Option.bind_some, hbody] at hc
      refine .inl ⟨fun j hj => ?_, (Except.error.inj hc).symm⟩
      exact Option.some.inj hj ▸ hbody
    | some body =>
      rw [hh, Option.bind_some, hbody] at hc
      by_cases hdeep : maxFrames ≤ m.state.frames.length
      · simp only [Option.map_some, ite_run, bind_apply, throw_apply, if_pos hdeep, andThen_error] at hc
        exact .inr ⟨i, body, rfl, hbody, hdeep, (Except.error.inj hc).symm⟩
      · simp only [Option.map_some, ite_run, bind_apply, throw_apply, if_neg hdeep] at hc
        cases hc

/-- What a handler has come to when its frame is closed is what the call gives: its error is passed on, and
its first result is popped. -/
lemma callGives_of_run {i : ℕ} {body : HostProgram σ} {n : Machine σ} {r : Except RuntimeError ℕ}
    {p : Prop}
    (hm : m.state.Bounded) (hroom : m.state.top + (h :: args).length ≤ stackLimit)
    (hh : h.function? = some i) (hbody : m.bodies[i]? = some body)
    (hframes : m.state.frames.length < maxFrames) (hn : enter body (m.started h args i) = (r, n))
    (hcourse : Course p (m.started h args i).state n.state) :
    let y := (settle m.state.top 1 r >>= fun _ => lift State.pop) n.left
    CallGives enter m h args y.1 (y.2.withState (y.2.state.unwind m.state.top)) := by
  have hlimit : n.left.state.top ≤ stackLimit := hcourse.top_le hroom
  cases r with
  | error e =>
    exact .fails hroom hh hbody hframes hn
      (((Machine.Restacks.refl n.left).unwind hlimit hm.top_le).unwind hm.top_le hm.top_le)
  | ok produced =>
    -- there is room for one result in place of the handler
    have hslot : m.state.top < stackLimit :=
      Nat.lt_of_lt_of_le (Nat.lt_add_of_pos_right (Nat.succ_pos _)) hroom
    obtain ⟨stack, hreturn, hvalue⟩ := returnResults_one produced hslot hlimit
    -- the base is again that of the caller, or that of the host
    have hbase : n.left.state.base ≤ m.state.top := by
      rcases hcourse.frames with hkept | hlost
      · have htail : n.left.state.frames = m.state.frames := congrArg List.tail hkept
        rw [State.base, htail]
        exact hm.base_le
      · have hnil : n.left.state.frames = [] := hlost
        rw [State.base, hnil]
        exact Nat.zero_le _
    have hempty : ¬ m.state.top + 1 ≤ n.left.state.base := by omega
    intro y
    have hy : y = (.ok (stack.get m.state.top),
        n.left.withState ((n.left.state.withStack stack).withTop (m.state.top + 1)).dropped) := by
      simp only [y, settle, bind_apply, lift_apply, hreturn, andThen_ok, Machine.state_withState, pop_apply,
        top_withTop, base_withTop, base_withStack, if_neg hempty, Nat.add_sub_cancel, stack_withTop,
        stack_withStack]
      rfl
    rw [hy, hvalue]
    have hz : n.left.Restacks (n.left.withState
        (((n.left.state.withStack stack).withTop (m.state.top + 1)).dropped.unwind m.state.top)) :=
      Machine.Restacks.unwind
        (n := n.left.withState ((n.left.state.withStack stack).withTop (m.state.top + 1)).dropped)
        ⟨_, _, rfl⟩ hslot.le hm.top_le
    have hgives := CallGives.returns hroom hh hbody hframes hn hz
    exact hgives

/-- **A handler is called once, with the arguments**, and what this gives is the result, whatever the
handler does.

*Proof sketch.* The handler is called where it was put. A run leaves the frames as they are or gives them
all up, and keeps the top within the stack; so there is room for one result, which then is on top of the
frame of the caller. -/
lemma callGives_callHandler (levels : ℕ) (hm : m.state.Bounded) (h : Value) (args : List Value) :
    CallGives (HostProgram.runWithin levels) m h args
      (callHandler (HostProgram.runWithin levels) h args m).1
      (callHandler (HostProgram.runWithin levels) h args m).2 := by
  have hcourse : ∀ e : HostProgram σ × Machine σ, _ := Configuration.course_run levels
  generalize HostProgram.runWithin levels = enter at hcourse ⊢
  by_cases hover : stackLimit < m.state.top + (h :: args).length
  · obtain ⟨stack, top, hpush⟩ := Machine.Restacks.pushAll (h :: args) m.state
    have hpushed : m.Restacks (m.withState (pushAll (h :: args) m.state).2) :=
      ⟨stack, top, congrArg m.withState hpush⟩
    rw [callHandler_of_overflow enter hover]
    exact .overflow hover
      (hpushed.unwind ((Steers.pushAll (h :: args) m.state).top_le hm.top_le) hm.top_le)
  have hroom := Nat.le_of_not_lt hover
  rw [callHandler_apply, pushAndCall_of_fits hroom, bind_apply]
  cases hc : (callee args.length (m.handed h args)).1 with
  | error e =>
    have hz := Machine.Restacks.unwind (m := m) (n := m.handed h args) ⟨_, _, rfl⟩ hroom hm.top_le
    rw [call_of_error enter hc, andThen_error]
    rcases callee_handed_error hm.base_le hroom hc with ⟨hh, rfl⟩ | ⟨i, body, hh, hbody, hframes, rfl⟩
    · exact .notCallable hroom hh hz
    · exact .tooDeep hroom hh hbody hframes hz
  | ok c =>
    obtain ⟨slot, i, body⟩ := c
    obtain ⟨-, hslot, hh, hbody, hframes⟩ := callee_eq_ok_iff.mp hc
    have htop : (m.handed h args).state.top = m.state.top + (args.length + 1) := rfl
    obtain rfl : slot = m.state.top := by omega
    rw [Machine.handed_function hroom] at hh
    rw [call_of_ok enter hc, ← bind_apply]
    exact callGives_of_run hm hroom hh hbody hframes rfl (hcourse (body, m.started h args i))

/-! ## Handlers in an order -/

/-- A handler that an operator may turn to: its event, the arguments it is called with, and what comes of
its result. -/
structure Recourse (α : Type) where
  event : String
  args : List Value
  finish : Value → α

/-- **An operator turns to handlers**, to one after the other. The first one that its operands have is called,
and its result, or its error, is that of the operator. If they have none of them, the operator fails with an
error of its own, and nothing has changed. -/
inductive Resorts (enter : HostProgram σ → MachineM σ ℕ) (m : Machine σ) (operands : List Value)
    (otherwise : RuntimeError) : List (Recourse α) → Except RuntimeError α × Machine σ → Prop
  | calls {r : Recourse α} {rest : List (Recourse α)} {f : Value} {x : Except RuntimeError Value}
    {z : Except RuntimeError α × Machine σ} (hf : m.state.heap.FindsHandler r.event operands f)
    (hx : CallGives enter m f r.args x z.2) (hz : z.1 = x.map r.finish) :
    Resorts enter m operands otherwise (r :: rest) z
  | passes {r : Recourse α} {rest : List (Recourse α)} {z : Except RuntimeError α × Machine σ}
    (hf : ∀ f, ¬ m.state.heap.FindsHandler r.event operands f)
    (hz : Resorts enter m operands otherwise rest z) : Resorts enter m operands otherwise (r :: rest) z
  | givesUp : Resorts enter m operands otherwise [] (.error otherwise, m)

/-- A plan to call a handler turns to it, and to nothing else. -/
lemma resorts_ofHandler (levels : ℕ) (hm : m.state.Bounded) {operands : List Value} (r : Recourse α)
    (rest : List (Recourse α)) (otherwise : RuntimeError) {p : Plan α}
    (hrest : (∀ f, ¬ m.state.heap.FindsHandler r.event operands f) →
      Resorts (HostProgram.runWithin levels) m operands otherwise rest
        (p.follow (HostProgram.runWithin levels) m)) :
    Resorts (HostProgram.runWithin levels) m operands otherwise (r :: rest)
      ((match m.state.operatorHandler? r.event operands with
        | some f => Plan.handle f r.args r.finish
        | none => p).follow (HostProgram.runWithin levels) m) := by
  cases hf : m.state.operatorHandler? r.event operands with
  | some f =>
    have hgives := callGives_callHandler levels hm f r.args
    dsimp only
    rw [Plan.follow, map_apply]
    rcases hcall : callHandler (HostProgram.runWithin levels) f r.args m with ⟨e | v, n⟩ <;>
      rw [hcall] at hgives
    · exact .calls (x := .error e) (operatorHandler?_eq_some_iff.mp hf) hgives rfl
    · exact .calls (x := .ok v) (operatorHandler?_eq_some_iff.mp hf) hgives rfl
  | none =>
    have hno := operatorHandler?_eq_none_iff.mp hf
    exact .passes hno (hrest hno)

end MachineM

/-! ## The operators -/

/-- Sequences of bytes are compared in the order of dictionaries. -/
lemma bytesLessEqual_eq (l r : List UInt8) : bytesLessEqual l r = decide (l ≤ r) := by
  induction l generalizing r with
  | nil => rw [bytesLessEqual, decide_eq_true (List.nil_le r)]
  | cons a as ih =>
    cases r with
    | nil => rw [bytesLessEqual, decide_eq_false (by rw [List.le_nil]; exact List.cons_ne_nil a as)]
    | cons b bs =>
      rw [bytesLessEqual, ih, Bool.eq_iff_iff]
      simp only [Bool.or_eq_true, Bool.and_eq_true, decide_eq_true_eq, List.cons_le_cons_iff]

namespace MachineM

open State

variable {σ : Type} {m : Machine σ}

/-- Where an arithmetic operator has no numbers, its plan is to call its handler. -/
lemma arithPlan_of_not {s : State} {op : ArithOp} {a b : Value}
    (h : ∀ x y, ¬ (s.StandsFor a x ∧ s.StandsFor b y)) :
    s.arithPlan op a b = .ofHandler (s.operatorHandler? op.event [a, b]) [a, b] id .arithmetic := by
  simp only [standsFor_iff] at h
  unfold arithPlan
  cases ha : s.coerceNumber a with
  | none => rfl
  | some x =>
    cases hb : s.coerceNumber b with
    | none => rfl
    | some y => exact absurd ⟨ha, hb⟩ (h x y)

lemma negatePlan_of_not {s : State} {a : Value} (h : ∀ x, ¬ s.StandsFor a x) :
    s.negatePlan a = .ofHandler (s.operatorHandler? "__unm" [a]) [a] id .arithmetic := by
  simp only [standsFor_iff, ← Option.eq_none_iff_forall_ne_some] at h
  rw [negatePlan, h]

/-- Operands of which one is no number and one no string are not compared as they are. -/
lemma compare?_eq_none {s : State} {a b : Value} (hnumber : ¬ (a.number?.isSome ∧ b.number?.isSome))
    (hstring : ¬ (a.string?.isSome ∧ b.string?.isSome)) : s.compare? a b = none := by
  rw [compare?_eq]
  split
  · next hx hy => exact absurd ⟨Option.isSome_of_eq_some hx, Option.isSome_of_eq_some hy⟩ hnumber
  · next hi hj => exact absurd ⟨Option.isSome_of_eq_some hi, Option.isSome_of_eq_some hj⟩ hstring
  · rfl

/-- Where operands are not compared as they are, the plan is to call a handler for `__le`, or else one for
`__lt`. -/
lemma lessEqualPlan_of_not {s : State} {a b : Value} (h : s.compare? a b = none) :
    s.lessEqualPlan a b = match s.operatorHandler? "__le" [a, b] with
      | some f => .handle f [a, b] fun v => !v.isFalsey
      | none => .ofHandler (s.operatorHandler? "__lt" [a, b]) [b, a] Value.isFalsey .compare := by
  rw [lessEqualPlan, h]
  cases s.operatorHandler? "__le" [a, b] <;> rfl

/-- Two strings are compared by their bytes. -/
lemma compare?_strings {s : State} {a b : Value} {i j : ℕ} (ha : a.string? = some i)
    (hb : b.string? = some j) :
    s.compare? a b = some (match s.heap.strings.get? i, s.heap.strings.get? j with
      | some l, some r => .ok (decide (l ≤ r))
      | _, _ => if i = j then .ok true else .error .compare) := by
  rw [compare?_eq, Value.number?_of_string ha, Value.number?_of_string hb, ha, hb]
  dsimp only
  by_cases hij : i = j
  · subst hij
    cases hi : s.heap.strings.get? i with
    | none => simp
    | some l => simp
  · rw [if_neg hij, if_neg hij]
    cases s.heap.strings.get? i <;> cases s.heap.strings.get? j <;> simp [bytesLessEqual_eq]

section Comparison

variable {enter : HostProgram σ → MachineM σ ℕ} {a b : Value}

/-- What can be compared as it is needs no handler. -/
lemma lessEqual_of_compare {r : Except RuntimeError Bool} (h : m.state.compare? a b = some r) :
    lessEqual enter a b m = (r, m) := by
  rw [lessEqual_apply, lessEqualPlan, h, Plan.follow, ofExcept_apply]

/-- A number and a string are not compared, in either order. -/
lemma lessEqual_of_mixed {x : Binary64} {i : ℕ}
    (h : a.number? = some x ∧ b.string? = some i ∨ a.string? = some i ∧ b.number? = some x) :
    lessEqual enter a b m = (.error .compare, m) := by
  have hno : ∀ event, m.state.operatorHandler? event [a, b] = none := by
    refine fun event => operatorHandler?_eq_none_iff.mpr fun f => Heap.not_findsHandler ?_
    simp only [List.mem_cons, List.not_mem_nil, or_false, forall_eq_or_imp, forall_eq]
    rcases h with ⟨ha, hb⟩ | ⟨ha, hb⟩
    · exact ⟨fun g => Heap.not_hasHandler_of_number ha, fun g => Heap.not_hasHandler_of_string hb⟩
    · exact ⟨fun g => Heap.not_hasHandler_of_string ha, fun g => Heap.not_hasHandler_of_number hb⟩
  have hcompare : m.state.compare? a b = none := by
    rw [compare?_eq]
    rcases h with ⟨ha, hb⟩ | ⟨ha, hb⟩
    · rw [ha, Value.number?_of_string hb]
    · rw [hb, Value.number?_of_string ha]
  rw [lessEqual_apply, lessEqualPlan_of_not hcompare, hno, hno]
  rfl

end Comparison

/-- **What operators do with their operands.** Take any machine with its frame within the stack, any two
values, and handlers that may do whatever they like.

Where both values stand for numbers, an arithmetic operator gives its result on these, and where the first
one does, so does the negation; nothing has changed then. Otherwise they turn to the handler of the operator,
which is called with the operands; without one they fail.

Two numbers are compared as such, and two strings by their bytes. A string and a number cannot be compared,
whatever the string holds. Everything else is up to handlers: the comparison turns to one for `__le`, which is
called with the operands, and then to one for `__lt`, which is called with the operands swapped and the answer
of which is negated. A string never has a handler. -/
theorem operators_dispatch (levels : ℕ) (hm : m.state.Bounded) (a b : Value) :
    let s := m.state
    let enter : HostProgram σ → MachineM σ ℕ := HostProgram.runWithin levels
    (∀ op : ArithOp,
      (∀ x y, s.StandsFor a x → s.StandsFor b y →
        arith enter op a b m = (.ok (.number (op.apply x y)), m)) ∧
      ((∀ x y, ¬ (s.StandsFor a x ∧ s.StandsFor b y)) →
        Resorts enter m [a, b] .arithmetic [⟨op.event, [a, b], id⟩] (arith enter op a b m))) ∧
    ((∀ x, s.StandsFor a x → negate enter a m = (.ok (.number x.neg), m)) ∧
      ((∀ x, ¬ s.StandsFor a x) →
        Resorts enter m [a] .arithmetic [⟨"__unm", [a], id⟩] (negate enter a m))) ∧
    ((∀ x y, a.number? = some x → b.number? = some y → lessEqual enter a b m = (.ok (x.le y), m)) ∧
      (∀ i j l r, a.string? = some i → b.string? = some j → s.heap.strings.get? i = some l →
        s.heap.strings.get? j = some r → lessEqual enter a b m = (.ok (decide (l ≤ r)), m)) ∧
      (∀ i j, a.string? = some i → b.string? = some j →
        s.heap.strings.get? i = none ∨ s.heap.strings.get? j = none →
        lessEqual enter a b m = (if i = j then .ok true else .error .compare, m)) ∧
      (∀ x i, a.number? = some x ∧ b.string? = some i ∨ a.string? = some i ∧ b.number? = some x →
        lessEqual enter a b m = (.error .compare, m)) ∧
      (¬ (a.number?.isSome ∧ b.number?.isSome) → ¬ (a.string?.isSome ∧ b.string?.isSome) →
        Resorts enter m [a, b] .compare
          [⟨"__le", [a, b], fun v => !v.isFalsey⟩, ⟨"__lt", [b, a], Value.isFalsey⟩]
          (lessEqual enter a b m))) ∧
    ∀ event v f i, v.string? = some i → ¬ s.heap.HasHandler event v f := by
  intro s enter
  refine ⟨fun op => ⟨fun x y hx hy => ?_, fun hno => ?_⟩, ⟨fun x hx => ?_, fun hno => ?_⟩,
    ⟨fun x y hx hy => ?_, fun i j l r hi hj hl hr => ?_, fun i j hi hj hlost => ?_, fun x i hmixed => ?_,
      fun hnumber hstring => ?_⟩, fun event v f i hv => ?_⟩
  · rw [arith_apply, arithPlan, standsFor_iff.mp hx, standsFor_iff.mp hy]
    rfl
  · rw [arith_apply, arithPlan_of_not hno]
    exact resorts_ofHandler levels hm ⟨op.event, [a, b], id⟩ [] .arithmetic fun _ => .givesUp
  · rw [negate_apply, negatePlan, standsFor_iff.mp hx]
    rfl
  · rw [negate_apply, negatePlan_of_not hno]
    exact resorts_ofHandler levels hm ⟨"__unm", [a], id⟩ [] .arithmetic fun _ => .givesUp
  · refine lessEqual_of_compare ?_
    rw [compare?_eq, hx, hy]
  · refine lessEqual_of_compare ?_
    rw [compare?_strings hi hj, hl, hr]
  · refine lessEqual_of_compare ?_
    rw [compare?_strings hi hj]
    rcases hlost with h | h <;> rw [h]
    cases s.heap.strings.get? i <;> rfl
  · exact lessEqual_of_mixed hmixed
  · rw [lessEqual_apply, lessEqualPlan_of_not (compare?_eq_none hnumber hstring)]
    refine resorts_ofHandler levels hm ⟨"__le", [a, b], fun v => !v.isFalsey⟩ _ .compare fun _ => ?_
    exact resorts_ofHandler levels hm ⟨"__lt", [b, a], Value.isFalsey⟩ [] .compare fun _ => .givesUp
  · exact Heap.not_hasHandler_of_string hv

/-- The table has the function `0` as its handler for addition. -/
lemma handledMachine_findsHandler :
    handledMachine.state.heap.FindsHandler "__add" [.table 3, .bool true] (.function 0) := by
  rw [handledMachine_heap]
  exact .here (Heap.hasHandler_iff.mpr ⟨⟨4, handledHeap_metatableOf⟩, handledHeap_metafield, by decide⟩)

/-- The handler of that machine, called with some arguments, gives the last of them. -/
lemma callGives_handled {args : List Value} {x : Except RuntimeError Value} {z : Machine Unit}
    (hargs : args.length = 2)
    (hx : CallGives (HostProgram.runWithin (199 + 1)) handledMachine (.function 0) args x z) :
    x = .ok ((args.rtake 1).headD .nil) := by
  have hfunction : (Value.function 0).function? = some 0 := by decide
  have hlimit : stackLimit = 65536 := rfl
  have hbody : handledMachine.bodies[0]? = some (.done 1) := rfl
  have hframes : handledMachine.state.frames.length = 1 := rfl
  have hmax : maxFrames = 200 := rfl
  cases hx with
  | overflow hover =>
    rw [handledMachine_top, List.length_cons] at hover
    omega
  | notCallable _ hh _ =>
    rw [hh 0 hfunction] at hbody
    cases hbody
  | tooDeep _ _ _ hdeep _ => omega
  | fails _ hh hbody' _ hn _ =>
    obtain rfl := Option.some.inj (hfunction.symm.trans hh)
    obtain rfl := Option.some.inj (hbody.symm.trans hbody')
    cases hn
  | returns hroom hh hbody' _ hn _ =>
    obtain rfl := Option.some.inj (hfunction.symm.trans hh)
    obtain rfl := Option.some.inj (hbody.symm.trans hbody')
    obtain ⟨hone, rfl⟩ := Prod.mk.inj hn
    obtain rfl := Except.ok.inj hone
    have hview := (Machine.starts_started (i := 0) hroom).started.view
    rw [view_eq_segment, (Machine.starts_started (i := 0) hroom).base] at hview
    rw [hview]

/-- The addition of the table and the truth value calls the handler with both of them, and gives the truth
value, which is the last one. -/
theorem handled_operators_dispatch :
    handledMachine.state.Bounded ∧
    (arith (HostProgram.runWithin (199 + 1)) .add (.table 3) (.bool true) handledMachine).1 =
      .ok (.bool true) := by
  refine ⟨handledMachine_bounded, ?_⟩
  obtain ⟨harith, -⟩ := operators_dispatch (199 + 1) handledMachine_bounded (.table 3) (.bool true)
  have hno : ∀ x y, ¬ (handledMachine.state.StandsFor (.table 3) x ∧
      handledMachine.state.StandsFor (.bool true) y) := by
    rintro x y ⟨hx | ⟨hv, -⟩, -⟩
    · exact absurd (Option.isSome_of_eq_some hx) (by decide)
    · exact absurd (Option.isSome_of_eq_some hv) (by decide)
  have hresorts := (harith .add).2 hno
  generalize arith (HostProgram.runWithin (199 + 1)) .add (.table 3) (.bool true) handledMachine = z
    at hresorts ⊢
  cases hresorts with
  | calls hf hx hz =>
    have hfound := operatorHandler?_eq_some_iff.mpr hf
    rw [show (ArithOp.add).event = "__add" from rfl,
      operatorHandler?_eq_some_iff.mpr handledMachine_findsHandler, Option.some.injEq] at hfound
    subst hfound
    rw [hz, callGives_handled rfl hx]
    rfl
  | passes hf _ => exact absurd handledMachine_findsHandler (hf _)

end MachineM

end ScriptCore
