import Mathlib
import ScriptCore.Proofs.Running

set_option relaxedAutoImplicit false
set_option autoImplicit false

/-!
# Calls in closed form

A call that finds its callee enters one frame, runs one program in it and settles what comes back;
an operator gives its result at once or calls one handler. So an invocation runs at most one
program, from one machine, which is its entry.

## Main definitions

* `ScriptCore.MachineM.settle` — what a call does when its callee comes back.
* `ScriptCore.Plan` — what an operator does on its operands.
* `ScriptCore.Invocation.enters?` — the program an invocation runs, and the machine it starts from.

## Main results

* `ScriptCore.MachineM.call_of_ok`, `ScriptCore.MachineM.call_of_error` — calls in closed form.
* `ScriptCore.MachineM.arith_apply`, `ScriptCore.MachineM.negate_apply`,
  `ScriptCore.MachineM.lessEqual_apply` — an operator follows its plan.
* `ScriptCore.MachineM.invoke_congr` — an invocation runs programs at its entry only.
-/

namespace ScriptCore

/-! ## Calls -/

variable {σ α : Type}

namespace Machine

/-- A machine with another state. -/
def withState (m : Machine σ) (s : State) : Machine σ := { m with state := s }

@[simp]
lemma state_withState (m : Machine σ) (s : State) : (m.withState s).state = s := rfl

@[simp]
lemma bodies_withState (m : Machine σ) (s : State) : (m.withState s).bodies = m.bodies := rfl

@[simp]
lemma withState_withState (m : Machine σ) (s t : State) :
    (m.withState s).withState t = m.withState t := rfl

@[simp]
lemma host_withState (m : Machine σ) (s : State) : (m.withState s).host = m.host := rfl

/-- A machine with another state of the host. -/
def withHost (m : Machine σ) (host : σ) : Machine σ := { m with host }

@[simp]
lemma state_withHost (m : Machine σ) (host : σ) : (m.withHost host).state = m.state := rfl

lemma withHost_withState (m : Machine σ) (s : State) (host : σ) :
    (m.withState s).withHost host = (m.withHost host).withState s := rfl

/-- A machine with one more function. -/
def addFunction (m : Machine σ) (name : String) (body : HostProgram σ) (upvalues : Array Value) :
    Machine σ :=
  { m with state := (m.state.addNative name upvalues).2, bodies := m.bodies.push body }

@[simp]
lemma state_addFunction (m : Machine σ) (name : String) (body : HostProgram σ)
    (upvalues : Array Value) :
    (m.addFunction name body upvalues).state = (m.state.addNative name upvalues).2 := rfl

lemma addFunction_withState (m : Machine σ) (name : String) (body : HostProgram σ)
    (upvalues : Array Value) (s : State) :
    (m.withState s).addFunction name body upvalues =
      (m.addFunction name body upvalues).withState (s.addNative name upvalues).2 := rfl

/-- The machine in which the function `i` at a slot starts to run. -/
def entered (m : Machine σ) (slot i : Nat) : Machine σ :=
  m.withState (m.state.enterFrame ⟨slot + 1, some i⟩)

/-- The machine with its innermost frame closed. -/
def left (m : Machine σ) : Machine σ := m.withState m.state.leaveFrame

end Machine

/-- What a protected call does after an error: it closes the frames that are too many, drops
everything from the slot of the function on, and puts the message there. -/
def State.rescue (depth slot : Nat) (e : RuntimeError) : Action Unit := do
  modify fun s => { s with frames := s.frames.drop (s.frames.length - depth) }
  modify fun s => s.unwind slot
  State.push (← State.intern e.message)
  throw e

namespace MachineM

/-- What a call does, once its frame is closed, with what the function at `slot` gave. -/
def settle (slot : Nat) (nresults : Int) : Except RuntimeError Nat → MachineM σ Unit
  | .error e => do
    modifyState fun s => s.unwind slot
    throw e
  | .ok produced => lift (State.returnResults slot produced nresults)

@[simp]
lemma lift_apply (x : Action α) (m : Machine σ) :
    lift x m = ((x m.state).1, m.withState (x m.state).2) := rfl

@[simp]
lemma modifyState_apply (f : State → State) (m : Machine σ) :
    modifyState f m = (.ok (), m.withState (f m.state)) := rfl

@[simp]
lemma attempt_apply (x : MachineM σ α) (m : Machine σ) : attempt x m = (.ok (x m).1, (x m).2) :=
  rfl

/-- An action on the state goes on as an action on the state. -/
lemma lift_bind {β : Type} (x : Action α) (f : α → Action β) :
    (lift (x >>= f) : MachineM σ β) = lift x >>= fun a => lift (f a) := by
  funext m
  rw [bind_apply, lift_apply, lift_apply, bind_apply]
  rcases x m.state with ⟨_ | a, s⟩ <;> rfl

/-- Looking for the callee changes nothing. -/
lemma callee_apply (nargs : Nat) (m : Machine σ) :
    callee nargs m = ((callee nargs m).1, m) := by
  simp only [callee, bind_apply, get_apply, andThen_ok, ite_run, throw_apply]
  split
  · rfl
  · rcases (m.state.stack.get (m.state.top - nargs - 1)).function?.bind fun i =>
      (m.bodies[i]?).map fun body => (i, body) with _ | ⟨i, body⟩
    · rfl
    · simp only [ite_run, pure_apply]
      split <;> rfl

/-- The callee is found if it lies in the frame, is a function with a program, and there may be one
more frame. -/
lemma callee_eq_ok_iff {nargs slot i : Nat} {body : HostProgram σ} {m : Machine σ} :
    (callee nargs m).1 = .ok (slot, i, body) ↔
      nargs < m.state.size ∧ slot = m.state.top - nargs - 1 ∧
        (m.state.stack.get slot).function? = some i ∧ m.bodies[i]? = some body ∧
        m.state.frames.length < State.maxFrames := by
  simp only [callee, bind_apply, get_apply, andThen_ok, ite_run, throw_apply]
  by_cases hsize : m.state.size < nargs + 1
  · simp only [hsize, ↓reduceIte, andThen_error, reduceCtorEq, false_iff]
    omega
  simp only [hsize, ↓reduceIte]
  cases hf : (m.state.stack.get (m.state.top - nargs - 1)).function? with
  | none =>
    simp only [Option.bind_none, throw_apply, reduceCtorEq, false_iff]
    rintro ⟨-, rfl, h, -⟩
    simp [hf] at h
  | some j =>
    cases hb : m.bodies[j]? with
    | none =>
      simp only [Option.bind_some, hb, Option.map_none, throw_apply, reduceCtorEq, false_iff]
      rintro ⟨-, rfl, h, h', -⟩
      rw [hf, Option.some.injEq] at h
      rw [← h, hb] at h'
      cases h'
    | some b =>
      simp only [Option.bind_some, hb, Option.map_some, ite_run]
      by_cases hdepth : State.maxFrames ≤ m.state.frames.length
      · simp only [hdepth, ↓reduceIte, bind_apply, throw_apply, andThen_error, reduceCtorEq,
          false_iff]
        omega
      · simp only [hdepth, ↓reduceIte, pure_apply, Except.ok.injEq, Prod.mk.injEq]
        constructor
        · rintro ⟨rfl, rfl, rfl⟩
          exact ⟨by omega, rfl, hf, hb, by omega⟩
        · rintro ⟨-, rfl, h, h', -⟩
          rw [hf, Option.some.injEq] at h
          subst h
          rw [hb, Option.some.injEq] at h'
          exact ⟨rfl, rfl, h'⟩

section Calls

variable (enter : HostProgram σ → MachineM σ Nat) {nargs : Nat} {nresults : Int} {m : Machine σ}

/-- A call that finds no callee changes nothing. -/
lemma call_of_error {e : RuntimeError} (h : (callee nargs m).1 = .error e) :
    call enter nargs nresults m = (.error e, m) := by
  rw [call, bind_apply, callee_apply, h, andThen_error]

/-- A call runs the program of its callee in a frame of its own and settles what comes back. -/
lemma call_of_ok {slot i : Nat} {body : HostProgram σ}
    (h : (callee nargs m).1 = .ok (slot, i, body)) :
    call enter nargs nresults m =
      settle slot nresults (enter body (m.entered slot i)).1
        (enter body (m.entered slot i)).2.left := by
  rw [call, bind_apply, callee_apply, h, andThen_ok]
  simp only [bind_apply, modifyState_apply, andThen_ok, attempt_apply]
  rcases hr : enter body (m.entered slot i) with ⟨_ | produced, n⟩ <;>
    · rw [Machine.entered] at hr
      rw [hr]
      rfl

/-- A protected call below too many arguments is as the call itself. -/
lemma protectedCall_of_size_le (h : m.state.size ≤ nargs) :
    protectedCall enter nargs nresults m = (.error .stackUnderflow, m) := by
  simp only [protectedCall, bind_apply, get_apply, andThen_ok, ite_run, throw_apply]
  rw [if_pos (by omega), andThen_error]

/-- A protected call is the call itself if that succeeds. -/
lemma protectedCall_of_ok (h : nargs < m.state.size)
    (hr : (call enter nargs nresults m).1 = .ok ()) :
    protectedCall enter nargs nresults m = call enter nargs nresults m := by
  simp only [protectedCall, bind_apply, get_apply, andThen_ok, ite_run, throw_apply]
  rw [if_neg (by omega)]
  simp only [pure_apply, andThen_ok, attempt_apply, hr]
  exact Prod.ext hr.symm rfl

/-- A protected call rescues the state if the call itself fails. -/
lemma protectedCall_of_error {e : RuntimeError} (h : nargs < m.state.size)
    (hr : (call enter nargs nresults m).1 = .error e) :
    protectedCall enter nargs nresults m =
      lift (State.rescue m.state.frames.length (m.state.top - nargs - 1) e)
        (call enter nargs nresults m).2 := by
  simp only [protectedCall, bind_apply, get_apply, andThen_ok, ite_run, throw_apply]
  rw [if_neg (by omega)]
  simp only [andThen_ok, attempt_apply, hr, State.rescue, lift_bind]
  rfl

end Calls

/-- The top behind a call that succeeds, if a number of results is wanted. -/
lemma top_settle_of_ok {m : Machine σ} {slot : Nat} {nresults : Int} {r : Except RuntimeError Nat}
    (hn : nresults ≠ -1) (hr : (settle slot nresults r m).1 = .ok ()) :
    (settle slot nresults r m).2.state.top = slot + nresults.toNat := by
  cases r with
  | error e => cases hr
  | ok produced =>
    simp only [settle, lift_apply, State.returnResults_apply, State.kept, if_neg hn, Machine.state_withState]
      at hr ⊢
    split at hr
    · cases hr
    · next hfits => rw [if_neg hfits, State.top_withTop]

lemma top_call_of_ok {enter : HostProgram σ → MachineM σ Nat} {m : Machine σ} {nargs : Nat} {nresults : Int} (hn : nresults ≠ -1)
    (hr : (call enter nargs nresults m).1 = .ok ()) :
    (call enter nargs nresults m).2.state.top = m.state.top - nargs - 1 + nresults.toNat := by
  cases hc : (callee nargs m).1 with
  | error e =>
    rw [call_of_error enter hc] at hr
    cases hr
  | ok c =>
    obtain ⟨slot, i, body⟩ := c
    obtain ⟨-, hslot, -⟩ := callee_eq_ok_iff.mp hc
    rw [call_of_ok enter hc] at hr ⊢
    rw [← hslot]
    exact top_settle_of_ok hn hr

end MachineM

/-- The program a call enters, and the machine it starts from. -/
def Machine.callEnters? (m : Machine σ) (nargs : Nat) : Option (HostProgram σ × Machine σ) :=
  match (MachineM.callee nargs m).1 with
  | .ok (slot, i, body) => some (body, m.entered slot i)
  | .error _ => none

lemma Machine.callEnters?_of_callee {m : Machine σ} {nargs slot i : Nat} {body : HostProgram σ}
    (h : (MachineM.callee nargs m).1 = .ok (slot, i, body)) :
    m.callEnters? nargs = some (body, m.entered slot i) := by
  simp only [callEnters?, h]

/-- What a call enters is the program of the function it finds, in a frame above that. -/
lemma Machine.callEnters?_eq_some_iff {m k : Machine σ} {nargs : Nat} {body : HostProgram σ} :
    m.callEnters? nargs = some (body, k) ↔
      ∃ slot i, (MachineM.callee nargs m).1 = .ok (slot, i, body) ∧ k = m.entered slot i := by
  refine ⟨fun h => ?_, fun ⟨slot, i, hc, hk⟩ => hk ▸ callEnters?_of_callee hc⟩
  cases hc : (MachineM.callee nargs m).1 with
  | error e =>
    simp only [callEnters?, hc] at h
    cases h
  | ok c =>
    obtain ⟨slot, i, body'⟩ := c
    simp only [callEnters?, hc, Option.some.injEq, Prod.mk.injEq] at h
    obtain ⟨rfl, rfl⟩ := h
    exact ⟨slot, i, rfl, rfl⟩

lemma Machine.callEnters?_of_error {m : Machine σ} {nargs : Nat} {e : RuntimeError}
    (h : (MachineM.callee nargs m).1 = .error e) : m.callEnters? nargs = none := by
  simp only [callEnters?, h]

/-- Nothing is entered if the function would lie below the frame. -/
lemma Machine.callEnters?_of_size_le {m : Machine σ} {nargs : Nat} (h : m.state.size ≤ nargs) :
    m.callEnters? nargs = none := by
  cases hc : (MachineM.callee nargs m).1 with
  | error e => exact callEnters?_of_error hc
  | ok c =>
    obtain ⟨slot, i, body⟩ := c
    have hlt := (MachineM.callee_eq_ok_iff.mp hc).1
    omega

/-! ## Operators -/

/-- Slots with values written from the slot `i` on. -/
def Slots.write (s : Slots) (i : Nat) : List Value → Slots
  | [] => s
  | v :: vs => (s.set i v).write (i + 1) vs

/-- What an operator does on its operands: it gives a result at once, or it calls a handler and
makes its result of that. -/
inductive Plan (α : Type) where
  | give (r : Except RuntimeError α)
  | handle (handler : Value) (args : List Value) (finish : Value → α)

/-- The plan to call a handler, if there is one, and to fail otherwise. -/
def Plan.ofHandler (handler? : Option Value) (args : List Value) (finish : Value → α)
    (otherwise : RuntimeError) : Plan α :=
  match handler? with
  | some h => .handle h args finish
  | none => .give (.error otherwise)

namespace State

/-- Puts values on top, the first one first. -/
def pushAll (vs : List Value) : Action Unit := vs.forM push

lemma pushAll_cons (v : Value) (vs : List Value) :
    pushAll (v :: vs) = push v >>= fun _ => pushAll vs := rfl

/-- Values for which there is room are written from the top on. -/
lemma pushAll_of_fits (vs : List Value) (s : State) (h : s.top + vs.length ≤ stackLimit) :
    pushAll vs s =
      (.ok (), (s.withStack (s.stack.write s.top vs)).withTop (s.top + vs.length)) := by
  induction vs generalizing s with
  | nil => rfl
  | cons v vs ih =>
    rw [List.length_cons] at h
    rw [pushAll_cons, bind_apply, push_apply, if_neg (by omega), andThen_ok,
      ih _ (by rw [top_withTop]; omega)]
    simp only [top_withTop, stack_withTop, stack_withStack, withStack_withTop, withTop_withTop,
      withStack_withStack, List.length_cons, Slots.write, Nat.add_assoc, Nat.add_comm 1]

/-- Values that are pushed raise the top, by their number if there is room. -/
lemma pushAll_top (vs : List Value) (s : State) :
    s.top ≤ (pushAll vs s).2.top ∧ (pushAll vs s).2.frames = s.frames ∧
      ((pushAll vs s).1 = .ok () → (pushAll vs s).2.top = s.top + vs.length) := by
  induction vs generalizing s with
  | nil => exact ⟨le_rfl, rfl, fun _ => rfl⟩
  | cons v vs ih =>
    rw [pushAll_cons, bind_apply, push_apply]
    split
    · exact ⟨le_rfl, rfl, nofun⟩
    · rw [andThen_ok]
      obtain ⟨htop, hframes, hok⟩ := ih ((s.withStack (s.stack.set s.top v)).withTop (s.top + 1))
      rw [top_withTop] at htop
      refine ⟨by omega, hframes, fun h => ?_⟩
      rw [hok h, top_withTop, List.length_cons]
      omega

/-- What an arithmetic operator does. -/
def arithPlan (s : State) (op : ArithOp) (a b : Value) : Plan Value :=
  match s.coerceNumber a, s.coerceNumber b with
  | some x, some y => .give (.ok (.number (op.apply x y)))
  | _, _ => .ofHandler (s.operatorHandler? op.event [a, b]) [a, b] id .arithmetic

/-- What the negation does. -/
def negatePlan (s : State) (a : Value) : Plan Value :=
  match s.coerceNumber a with
  | some x => .give (.ok (.number x.neg))
  | none => .ofHandler (s.operatorHandler? "__unm" [a]) [a] id .arithmetic

/-- What the comparison does. -/
def lessEqualPlan (s : State) (a b : Value) : Plan Bool :=
  match s.compare? a b, s.operatorHandler? "__le" [a, b] with
  | some r, _ => .give r
  | none, some h => .handle h [a, b] fun v => !v.isFalsey
  | none, none => .ofHandler (s.operatorHandler? "__lt" [a, b]) [b, a] Value.isFalsey .compare

/-- What the operation of an instruction does. -/
def operationPlan (s : State) (code : UInt8) (b c : Value) : Plan Value :=
  match OpCode.ofCode? code with
  | some .unm => s.negatePlan b
  | some .le =>
    match s.lessEqualPlan b c with
    | .give r => .give (r.map Value.bool)
    | .handle h args finish => .handle h args fun v => .bool (finish v)
  | op =>
    match op.bind ArithOp.ofOpCode? with
    | some op => s.arithPlan op b c
    | none => .give (.error (.invalidOpcode code))

end State

namespace Plan

variable (enter : HostProgram σ → MachineM σ Nat)

/-- Doing what a plan says. -/
def follow : Plan α → MachineM σ α
  | give r => MonadExcept.ofExcept r
  | handle h args finish => finish <$> MachineM.callHandler enter h args

/-- The program a plan enters, and the machine it starts from. -/
def enters? (m : Machine σ) : Plan α → Option (HostProgram σ × Machine σ)
  | give _ => none
  | handle h args _ =>
    match State.pushAll (h :: args) m.state with
    | (.ok _, s) => (m.withState s).callEnters? args.length
    | (.error _, _) => none

lemma follow_ofHandler (handler? : Option Value) (args : List Value) (finish : Value → α)
    (otherwise : RuntimeError) :
    (ofHandler handler? args finish otherwise).follow enter =
      match handler? with
      | some h => finish <$> MachineM.callHandler enter h args
      | none => throw otherwise := by
  cases handler? <;> rfl

end Plan

namespace MachineM

section Operators

variable (enter : HostProgram σ → MachineM σ Nat)

lemma pushAndCall_eq (h : Value) (args : List Value) :
    pushAndCall enter h args = (do
      lift (State.pushAll (h :: args))
      call enter args.length 1
      lift State.pop) := by
  have hargs : (args.forM fun v => (lift (State.push v) : MachineM σ Unit)) =
      lift (args.forM State.push) := by
    induction args with
    | nil => rfl
    | cons v args ih =>
      change (lift (State.push v) >>= fun _ => args.forM _) =
        lift (State.push v >>= fun _ => args.forM State.push)
      rw [ih, lift_bind]
  have hall : State.pushAll (h :: args) = State.push h >>= fun _ => args.forM State.push := rfl
  rw [pushAndCall, hall, lift_bind, hargs, bind_assoc]

lemma callHandler_apply (h : Value) (args : List Value) (m : Machine σ) :
    callHandler enter h args m =
      ((pushAndCall enter h args m).1,
        (pushAndCall enter h args m).2.withState
          ((pushAndCall enter h args m).2.state.unwind m.state.top)) := by
  simp only [callHandler, bind_apply, get_apply, andThen_ok, attempt_apply, modifyState_apply,
    ofExcept_apply]

lemma arith_apply (op : ArithOp) (a b : Value) (m : Machine σ) :
    arith enter op a b m = (m.state.arithPlan op a b).follow enter m := by
  simp only [arith, State.arithPlan, bind_apply, get_apply, andThen_ok]
  cases m.state.coerceNumber a <;> cases m.state.coerceNumber b <;>
    simp only [Plan.follow_ofHandler, id_map] <;> rfl

lemma negate_apply (a : Value) (m : Machine σ) :
    negate enter a m = (m.state.negatePlan a).follow enter m := by
  simp only [negate, State.negatePlan, bind_apply, get_apply, andThen_ok]
  cases m.state.coerceNumber a <;> simp only [Plan.follow_ofHandler, id_map] <;> rfl

lemma lessEqual_apply (a b : Value) (m : Machine σ) :
    lessEqual enter a b m = (m.state.lessEqualPlan a b).follow enter m := by
  simp only [lessEqual, State.lessEqualPlan, bind_apply, get_apply, andThen_ok]
  cases m.state.compare? a b <;> cases m.state.operatorHandler? "__le" [a, b] <;>
    cases m.state.operatorHandler? "__lt" [a, b] <;>
    simp only [Plan.ofHandler, Plan.follow, bind_apply, map_apply, ofExcept_apply] <;> rfl

lemma arithAt_apply (op : ArithOp) (a b : Int) (m : Machine σ) :
    arithAt enter op a b m =
      (arith enter op (m.state.valueAt a) (m.state.valueAt b) >>= fun r =>
        lift (State.push r)) m := by
  simp only [arithAt, bind_apply, get_apply, andThen_ok]

lemma negateAt_apply (a : Int) (m : Machine σ) :
    negateAt enter a m =
      (negate enter (m.state.valueAt a) >>= fun r => lift (State.push r)) m := by
  simp only [negateAt, bind_apply, get_apply, andThen_ok]

lemma lessEqualAt_apply (a b : Int) (m : Machine σ) :
    lessEqualAt enter a b m = lessEqual enter (m.state.valueAt a) (m.state.valueAt b) m := by
  simp only [lessEqualAt, bind_apply, get_apply, andThen_ok]

lemma operation_apply (code : UInt8) (b c : Value) (m : Machine σ) :
    operation enter code b c m = (m.state.operationPlan code b c).follow enter m := by
  unfold operation State.operationPlan
  rcases OpCode.ofCode? code with _ | op
  · rfl
  cases op with
  | unm => exact negate_apply enter b m
  | le =>
    change (lessEqual enter b c >>= fun r => pure (Value.bool r)) m = _
    rw [bind_apply, lessEqual_apply]
    cases m.state.lessEqualPlan b c with
    | give r => cases r <;> rfl
    | handle h args finish =>
      simp only [Plan.follow, map_apply]
      rcases callHandler enter h args m with ⟨_ | v, n⟩ <;> rfl
  | add | sub | mul | div | mod | idiv => exact arith_apply enter _ b c m
  | _ => rfl

end Operators

end MachineM

/-! ## What an invocation enters -/

namespace State

/-- The operands of an instruction. -/
def operands (word : UInt32) (base : Nat) : Action (Value × Value) := do
  let b ← register base (Instruction.decode word).b.toNat
  let c ← register base (Instruction.decode word).c.toNat
  return (b, c)

/-- Reading the operands changes nothing. -/
lemma operands_snd (word : UInt32) (base : Nat) (s : State) : (operands word base s).2 = s := by
  simp only [operands, register, bind_apply, ite_run, throw_apply]
  split
  · rfl
  · simp only [bind_apply, get_apply, andThen_ok, pure_apply, ite_run, throw_apply]
    split <;> rfl

/-- The state in which an instruction runs its operation: the top is above all registers. -/
def aboveRegisters (s : State) (base : Nat) : State :=
  { s with top := max s.top (base + registerWindow) }

end State

/-- The program an invocation enters, if it enters any, and the machine that starts from. -/
def Invocation.enters? (m : Machine σ) : Invocation → Option (HostProgram σ × Machine σ)
  | call nargs _ | protectedCall nargs _ => m.callEnters? nargs
  | arith op a b => (m.state.arithPlan op a b).enters? m
  | negate a => (m.state.negatePlan a).enters? m
  | lessEqual a b => (m.state.lessEqualPlan a b).enters? m
  | arithAt op a b => (m.state.arithPlan op (m.state.valueAt a) (m.state.valueAt b)).enters? m
  | negateAt a => (m.state.negatePlan (m.state.valueAt a)).enters? m
  | lessEqualAt a b => (m.state.lessEqualPlan (m.state.valueAt a) (m.state.valueAt b)).enters? m
  | instruction code word base =>
    match (State.operands word base m.state).1 with
    | .ok (b, c) =>
      (m.state.operationPlan code b c).enters? (m.withState (m.state.aboveRegisters base))
    | .error _ => none

/-- The program a call enters is that of a function of the machine, and only the state has changed
when it starts. -/
lemma Machine.callEnters?_withState {m k : Machine σ} {nargs : Nat} {body : HostProgram σ}
    (h : m.callEnters? nargs = some (body, k)) : k = m.withState k.state ∧ body ∈ m.bodies := by
  obtain ⟨slot, i, hc, rfl⟩ := Machine.callEnters?_eq_some_iff.mp h
  obtain ⟨-, -, -, hbody, -⟩ := MachineM.callee_eq_ok_iff.mp hc
  exact ⟨rfl, Array.mem_of_getElem? hbody⟩

lemma Plan.enters?_withState {m k : Machine σ} {p : Plan α} {body : HostProgram σ}
    (h : p.enters? m = some (body, k)) : k = m.withState k.state ∧ body ∈ m.bodies := by
  cases p with
  | give r => cases h
  | handle handler args finish =>
    simp only [Plan.enters?] at h
    rcases hp : State.pushAll (handler :: args) m.state with ⟨_ | u, s⟩ <;> rw [hp] at h
    · cases h
    · exact Machine.callEnters?_withState (m := m.withState s) h

/-- The program an invocation enters is that of a function of the machine, and only the state has
changed when it starts. -/
lemma Invocation.enters?_withState {m k : Machine σ} {i : Invocation} {body : HostProgram σ}
    (h : i.enters? m = some (body, k)) : k = m.withState k.state ∧ body ∈ m.bodies := by
  cases i with
  | call nargs nresults | protectedCall nargs nresults => exact Machine.callEnters?_withState h
  | instruction code word base =>
    simp only [Invocation.enters?] at h
    rcases hv : (State.operands word base m.state).1 with _ | ⟨b, c⟩ <;> rw [hv] at h
    · cases h
    · exact Plan.enters?_withState (m := m.withState (m.state.aboveRegisters base)) h
  | _ => exact Plan.enters?_withState h

namespace MachineM

lemma instruction_eq (enter : HostProgram σ → MachineM σ Nat) (code : UInt8) (word : UInt32)
    (base : Nat) :
    instruction enter code word base = (do
      let (b, c) ← lift (State.operands word base)
      let saved := (← get).state.top
      modifyState fun s => s.aboveRegisters base
      let r ← attempt (operation enter code b c)
      modifyState fun s => { s with top := saved }
      lift (State.setRegister base (Instruction.decode word).a.toNat
        (← MonadExcept.ofExcept r))) := by
  simp only [instruction, State.operands, lift_bind, bind_assoc]
  rfl

lemma instruction_of_error (enter : HostProgram σ → MachineM σ Nat) {code : UInt8} {word : UInt32}
    {base : Nat} {m : Machine σ} {e : RuntimeError}
    (hv : (State.operands word base m.state).1 = .error e) :
    instruction enter code word base m = (.error e, m) := by
  rw [instruction_eq, bind_apply, lift_apply, State.operands_snd, hv, andThen_error]
  rfl

/-- An instruction on registers that are there runs its operation above them, puts the top back and
sets its target. -/
lemma instruction_of_ok (enter : HostProgram σ → MachineM σ Nat) {code : UInt8} {word : UInt32}
    {base : Nat} {m : Machine σ} {bc : Value × Value}
    (hv : (State.operands word base m.state).1 = .ok bc) :
    instruction enter code word base m =
      let r := operation enter code bc.1 bc.2 (m.withState (m.state.aboveRegisters base))
      andThen (r.1, r.2.withState (r.2.state.withTop m.state.top))
        (lift ∘ State.setRegister base (Instruction.decode word).a.toNat) := by
  rw [instruction_eq, bind_apply, lift_apply, State.operands_snd, hv, andThen_ok]
  simp only [andThen_ok, bind_apply, get_apply, modifyState_apply, attempt_apply, ofExcept_apply,
    Machine.state_withState, Machine.withState_withState]
  rfl

section Congruence

variable {enter enter' : HostProgram σ → MachineM σ Nat} {m : Machine σ}

lemma call_congr {nargs : Nat} (nresults : Int)
    (h : ∀ body k, m.callEnters? nargs = some (body, k) → enter body k = enter' body k) :
    call enter nargs nresults m = call enter' nargs nresults m := by
  cases hc : (callee nargs m).1 with
  | error e => rw [call_of_error enter hc, call_of_error enter' hc]
  | ok c =>
    obtain ⟨slot, i, body⟩ := c
    rw [call_of_ok enter hc, call_of_ok enter' hc, h body _ (Machine.callEnters?_of_callee hc)]

lemma protectedCall_congr {nargs : Nat} (nresults : Int)
    (h : ∀ body k, m.callEnters? nargs = some (body, k) → enter body k = enter' body k) :
    protectedCall enter nargs nresults m = protectedCall enter' nargs nresults m := by
  have hcall := call_congr nresults h
  by_cases hsize : m.state.size ≤ nargs
  · rw [protectedCall_of_size_le enter hsize, protectedCall_of_size_le enter' hsize]
  have hsize : nargs < m.state.size := by omega
  cases hr : (call enter nargs nresults m).1 with
  | ok u =>
    rw [protectedCall_of_ok enter hsize hr, protectedCall_of_ok enter' hsize (hcall ▸ hr), hcall]
  | error e =>
    rw [protectedCall_of_error enter hsize hr,
      protectedCall_of_error enter' hsize (hcall ▸ hr), hcall]

lemma follow_congr (p : Plan α)
    (h : ∀ body k, p.enters? m = some (body, k) → enter body k = enter' body k) :
    p.follow enter m = p.follow enter' m := by
  cases p with
  | give r => rfl
  | handle handler args finish =>
    have hcall : pushAndCall enter handler args m = pushAndCall enter' handler args m := by
      simp only [pushAndCall_eq, bind_apply, lift_apply]
      rcases hpush : State.pushAll (handler :: args) m.state with ⟨_ | u, s⟩
      · rfl
      · simp only [andThen_ok, bind_apply]
        rw [call_congr 1]
        intro body k hk
        exact h body k (by simpa only [Plan.enters?, hpush] using hk)
    simp only [Plan.follow, map_apply, callHandler_apply, hcall]

lemma arith_congr {op : ArithOp} {a b : Value}
    (h : ∀ body k, (m.state.arithPlan op a b).enters? m = some (body, k) →
      enter body k = enter' body k) :
    arith enter op a b m = arith enter' op a b m := by
  rw [arith_apply, arith_apply, follow_congr _ h]

lemma negate_congr {a : Value}
    (h : ∀ body k, (m.state.negatePlan a).enters? m = some (body, k) →
      enter body k = enter' body k) :
    negate enter a m = negate enter' a m := by
  rw [negate_apply, negate_apply, follow_congr _ h]

lemma lessEqual_congr {a b : Value}
    (h : ∀ body k, (m.state.lessEqualPlan a b).enters? m = some (body, k) →
      enter body k = enter' body k) :
    lessEqual enter a b m = lessEqual enter' a b m := by
  rw [lessEqual_apply, lessEqual_apply, follow_congr _ h]

lemma operation_congr {code : UInt8} {b c : Value}
    (h : ∀ body k, (m.state.operationPlan code b c).enters? m = some (body, k) →
      enter body k = enter' body k) :
    operation enter code b c m = operation enter' code b c m := by
  rw [operation_apply, operation_apply, follow_congr _ h]

lemma instruction_congr {code : UInt8} {word : UInt32} {base : Nat}
    (h : ∀ body k, (Invocation.instruction code word base).enters? m = some (body, k) →
      enter body k = enter' body k) :
    instruction enter code word base m = instruction enter' code word base m := by
  cases hv : (State.operands word base m.state).1 with
  | error e => rw [instruction_of_error enter hv, instruction_of_error enter' hv]
  | ok bc =>
    rw [instruction_of_ok enter hv, instruction_of_ok enter' hv, operation_congr]
    intro body k hk
    refine h body k ?_
    simp only [Invocation.enters?, hv]
    exact hk

/-- **An invocation runs programs at its entry only**: two ways to run programs that agree there
cannot be told apart. -/
theorem invoke_congr (i : Invocation)
    (h : ∀ body k, i.enters? m = some (body, k) → enter body k = enter' body k) :
    invoke enter i m = invoke enter' i m := by
  cases i with
  | call nargs nresults => exact call_congr nresults h
  | protectedCall nargs nresults => exact protectedCall_congr nresults h
  | arith op a b => exact arith_congr h
  | negate a => exact negate_congr h
  | lessEqual a b => exact lessEqual_congr h
  | arithAt op a b =>
    change arithAt enter op a b m = arithAt enter' op a b m
    rw [arithAt_apply, arithAt_apply, bind_apply, bind_apply, arith_congr h]
  | negateAt a =>
    change negateAt enter a m = negateAt enter' a m
    rw [negateAt_apply, negateAt_apply, bind_apply, bind_apply, negate_congr h]
  | lessEqualAt a b =>
    change lessEqualAt enter a b m = lessEqualAt enter' a b m
    rw [lessEqualAt_apply, lessEqualAt_apply, lessEqual_congr h]
  | instruction code word base => exact instruction_congr h

end Congruence

end MachineM

/-! ## Properties that invocations keep -/

/-- One string has been made at most. -/
inductive Heap.Interns (h : Heap) : Heap → Prop
  | same : Interns h h
  | intern (content : List UInt8) : Interns h (h.intern content).2

lemma Heap.Interns.of_eq {h h' : Heap} (heq : h' = h) : h.Interns h' := heq ▸ .same

namespace State

lemma heap_push (v : Value) (s : State) : (push v s).2.heap = s.heap := by
  rw [push_apply]
  split <;> rfl

lemma heap_pop (s : State) : (pop s).2.heap = s.heap := by
  rw [pop_apply]
  split <;> rfl

lemma heap_pushAll (vs : List Value) (s : State) : (pushAll vs s).2.heap = s.heap := by
  induction vs generalizing s with
  | nil => rfl
  | cons v vs ih =>
    rw [pushAll_cons, bind_apply, push_apply]
    split
    · rfl
    · exact ih _

lemma heap_returnResults (slot produced : Nat) (nresults : Int) (s : State) :
    (returnResults slot produced nresults s).2.heap = s.heap := by
  rw [returnResults_apply]
  dsimp only
  split <;> rfl

/-- A register is set if it lies within the stack. -/
lemma setRegister_ite (base i : Nat) (v : Value) (s : State) :
    setRegister base i v s =
      if stackLimit ≤ base + i then (.error .stackOverflow, s)
      else (.ok (), s.withStack (s.stack.set (base + i) v)) := by
  simp only [setRegister, ite_run, bind_apply, throw_apply, modify_apply]
  split <;> rfl

lemma heap_setRegister (base i : Nat) (v : Value) (s : State) :
    (setRegister base i v s).2.heap = s.heap := by
  rw [setRegister_ite]
  split <;> rfl

/-- The message of an error is made a string, and the rest is done on the stack. -/
lemma heap_rescue (depth slot : Nat) (e : RuntimeError) (s : State) :
    (rescue depth slot e s).2.heap = (s.heap.intern (Text.bytes e.message)).2 := by
  rw [rescue, bind_apply, modify_apply, andThen_ok, bind_apply, modify_apply, andThen_ok, bind_apply, intern,
    internBytes_eq, onHeap, andThen_ok, bind_apply, push_apply]
  split <;> rfl

end State

namespace MachineM

section Keeping

variable {enter : HostProgram σ → MachineM σ Nat} {m : Machine σ} {P : Machine σ → Prop}

lemma keeps_bind {β : Type} {x : MachineM σ α} {f : α → MachineM σ β} (hx : P (x m).2)
    (hf : ∀ a n, P n → P (f a n).2) : P ((x >>= f) m).2 := by
  rw [bind_apply]
  rcases hr : x m with ⟨_ | a, n⟩ <;> rw [hr] at hx
  · exact hx
  · exact hf a n hx

variable (hP : ∀ m s, m.state.heap.Interns s.heap → P m → P (m.withState s))

include hP

lemma keeps_call {nargs : Nat} (nresults : Int) (hm : P m)
    (henter : ∀ body k, m.callEnters? nargs = some (body, k) → P k → P (enter body k).2) :
    P (call enter nargs nresults m).2 := by
  cases hc : (callee nargs m).1 with
  | error e =>
    rw [call_of_error enter hc]
    exact hm
  | ok c =>
    obtain ⟨slot, i, body⟩ := c
    have hbody := henter body (m.entered slot i) (Machine.callEnters?_of_callee hc) (hP m _ .same hm)
    rw [call_of_ok enter hc]
    cases (enter body (m.entered slot i)).1 with
    | error e => exact hP _ _ .same (hP _ _ .same hbody)
    | ok produced => exact hP _ _ (.of_eq (State.heap_returnResults ..)) (hP _ _ .same hbody)

lemma keeps_protectedCall {nargs : Nat} (nresults : Int) (hm : P m)
    (henter : ∀ body k, m.callEnters? nargs = some (body, k) → P k → P (enter body k).2) :
    P (protectedCall enter nargs nresults m).2 := by
  have hcall := keeps_call hP nresults hm henter
  by_cases hsize : m.state.size ≤ nargs
  · rw [protectedCall_of_size_le enter hsize]
    exact hm
  have hsize : nargs < m.state.size := by omega
  cases hr : (call enter nargs nresults m).1 with
  | ok u =>
    rw [protectedCall_of_ok enter hsize hr]
    exact hcall
  | error e =>
    rw [protectedCall_of_error enter hsize hr, lift_apply]
    exact hP _ _ (State.heap_rescue .. ▸ .intern _) hcall

lemma keeps_follow (p : Plan α) (hm : P m)
    (henter : ∀ body k, p.enters? m = some (body, k) → P k → P (enter body k).2) :
    P (p.follow enter m).2 := by
  cases p with
  | give r => cases r <;> exact hm
  | handle h args finish =>
    have hcall : P (pushAndCall enter h args m).2 := by
      rw [pushAndCall_eq, bind_apply, lift_apply]
      have hpushed := hP m _ (.of_eq (State.heap_pushAll (h :: args) m.state)) hm
      rcases hp : State.pushAll (h :: args) m.state with ⟨_ | u, s⟩ <;> rw [hp] at hpushed
      · exact hpushed
      · refine keeps_bind (keeps_call hP 1 hpushed fun body k hk => henter body k ?_)
          fun _ n hn => hP _ _ (.of_eq (State.heap_pop _)) hn
        simpa only [Plan.enters?, hp] using hk
    rw [Plan.follow, map_eq_pure_bind]
    refine keeps_bind ?_ fun _ n hn => hn
    rw [callHandler_apply]
    exact hP _ _ .same hcall

lemma keeps_arith {op : ArithOp} {a b : Value} (hm : P m)
    (henter : ∀ body k, (m.state.arithPlan op a b).enters? m = some (body, k) → P k →
      P (enter body k).2) : P (arith enter op a b m).2 := by
  rw [arith_apply]
  exact keeps_follow hP _ hm henter

lemma keeps_negate {a : Value} (hm : P m)
    (henter : ∀ body k, (m.state.negatePlan a).enters? m = some (body, k) → P k →
      P (enter body k).2) : P (negate enter a m).2 := by
  rw [negate_apply]
  exact keeps_follow hP _ hm henter

lemma keeps_lessEqual {a b : Value} (hm : P m)
    (henter : ∀ body k, (m.state.lessEqualPlan a b).enters? m = some (body, k) → P k →
      P (enter body k).2) : P (lessEqual enter a b m).2 := by
  rw [lessEqual_apply]
  exact keeps_follow hP _ hm henter

lemma keeps_instruction {code : UInt8} {word : UInt32} {base : Nat} (hm : P m)
    (henter : ∀ body k, (Invocation.instruction code word base).enters? m = some (body, k) → P k →
      P (enter body k).2) : P (instruction enter code word base m).2 := by
  cases hv : (State.operands word base m.state).1 with
  | error e =>
    rw [instruction_of_error enter hv]
    exact hm
  | ok bc =>
    have hop : P (operation enter code bc.1 bc.2 (m.withState (m.state.aboveRegisters base))).2 := by
      rw [operation_apply]
      refine keeps_follow hP _ (hP _ _ .same hm) fun body k hk => henter body k ?_
      simp only [Invocation.enters?, hv]
      exact hk
    rw [instruction_of_ok enter hv]
    dsimp only
    rcases hr : operation enter code bc.1 bc.2 (m.withState (m.state.aboveRegisters base)) with
      ⟨_ | v, n⟩ <;> rw [hr] at hop
    · exact hP _ _ .same hop
    · exact hP _ _ (.of_eq (State.heap_setRegister ..)) (hP _ _ .same hop)

/-- **What does not depend on the stack, and is kept when a string is made, is kept by an invocation** if the
program it enters keeps it. -/
theorem keeps_invoke (i : Invocation) (hm : P m)
    (henter : ∀ body k, i.enters? m = some (body, k) → P k → P (enter body k).2) :
    P (invoke enter i m).2 := by
  cases i with
  | call nargs nresults => exact keeps_call hP nresults hm henter
  | protectedCall nargs nresults => exact keeps_protectedCall hP nresults hm henter
  | arith op a b => exact keeps_arith hP hm henter
  | negate a => exact keeps_negate hP hm henter
  | lessEqual a b => exact keeps_lessEqual hP hm henter
  | arithAt op a b =>
    change P (arithAt enter op a b m).2
    rw [arithAt_apply]
    exact keeps_bind (keeps_arith hP hm henter) fun _ n hn => hP _ _ (.of_eq (State.heap_push ..)) hn
  | negateAt a =>
    change P (negateAt enter a m).2
    rw [negateAt_apply]
    exact keeps_bind (keeps_negate hP hm henter) fun _ n hn => hP _ _ (.of_eq (State.heap_push ..)) hn
  | lessEqualAt a b =>
    change P (lessEqualAt enter a b m).2
    rw [lessEqualAt_apply]
    exact keeps_lessEqual hP hm henter
  | instruction code word base => exact keeps_instruction hP hm henter

end Keeping

end MachineM

end ScriptCore
