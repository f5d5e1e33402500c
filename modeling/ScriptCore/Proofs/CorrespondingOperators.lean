import Mathlib
import ScriptCore.Proofs.CorrespondingCalls

set_option relaxedAutoImplicit false
set_option autoImplicit false

/-!
# Corresponding operators

On corresponding operands, an operator has corresponding plans: whether it needs a handler is decided
by numbers, contents of strings and fields of metatables, which all correspond. So an invocation in one
of two corresponding machines enters a program exactly if it does so in the other one, and leaves
corresponding machines if the programs do.

## Main results

* `ScriptCore.State.Corresponds.operationPlan` and others — what operators do.
* `ScriptCore.Invocation.enters?_corresponds` — what invocations enter.
* `ScriptCore.MachineM.mirrored_invoke` — invocations.
-/

namespace ScriptCore

variable {σ α β : Type}

/-! ## Plans -/

namespace Plan.Corresponds

variable {ρ : Pairing} {post : Pairing → α → β → Prop}

/-- Plans to call handlers that correspond. -/
lemma ofHandler {f g : Option Value} (hfg : Option.Rel (Value.Corresponds ρ) f g) {vs ws : List Value}
    (hvs : List.Forall₂ (Value.Corresponds ρ) vs ws) {finish : Value → α} {finish' : Value → β}
    (hfinish : ∀ ρ' v w, v.Corresponds ρ' w → post ρ' (finish v) (finish' w)) (e : RuntimeError) :
    (Plan.ofHandler f vs finish e).Corresponds ρ post (.ofHandler g ws finish' e) := by
  cases hfg with
  | none => exact .give (.error e)
  | some hf => exact .handle hf hvs hfinish

end Plan.Corresponds

namespace State.Corresponds

variable {ρ : Pairing} {s t : State} (h : s.Corresponds ρ t) {v w v' w' : Value}

include h

lemma arithPlan (op : ArithOp) (hv : v.Corresponds ρ w) (hv' : v'.Corresponds ρ w') :
    (s.arithPlan op v v').Corresponds ρ Value.Corresponds (t.arithPlan op w w') := by
  have hvs : List.Forall₂ (Value.Corresponds ρ) [v, v'] [w, w'] := .cons hv (.cons hv' .nil)
  have hhandler : (Plan.ofHandler (s.operatorHandler? op.event [v, v']) [v, v'] id
      .arithmetic).Corresponds ρ Value.Corresponds
        (.ofHandler (t.operatorHandler? op.event [w, w']) [w, w'] id .arithmetic) :=
    .ofHandler (h.operatorHandler? op.event hvs) hvs (fun _ _ _ hvw => hvw) .arithmetic
  rw [State.arithPlan, State.arithPlan, h.coerceNumber_eq hv, h.coerceNumber_eq hv']
  rcases t.coerceNumber w with _ | x <;> rcases t.coerceNumber w' with _ | y
  · exact hhandler
  · exact hhandler
  · exact hhandler
  · exact .give (.ok (.of_isPlain (Value.isPlain_number _)))

lemma negatePlan (hv : v.Corresponds ρ w) :
    (s.negatePlan v).Corresponds ρ Value.Corresponds (t.negatePlan w) := by
  have hvs : List.Forall₂ (Value.Corresponds ρ) [v] [w] := .cons hv .nil
  rw [State.negatePlan, State.negatePlan, h.coerceNumber_eq hv]
  rcases t.coerceNumber w with _ | x
  · exact .ofHandler (h.operatorHandler? _ hvs) hvs (fun _ _ _ hvw => hvw) _
  · exact .give (.ok (.of_isPlain (Value.isPlain_number _)))

lemma lessEqualPlan (hv : v.Corresponds ρ w) (hv' : v'.Corresponds ρ w') :
    (s.lessEqualPlan v v').Corresponds ρ State.Equally (t.lessEqualPlan w w') := by
  have hvs : List.Forall₂ (Value.Corresponds ρ) [v, v'] [w, w'] := .cons hv (.cons hv' .nil)
  have hle := h.operatorHandler? "__le" hvs
  have hlt := h.operatorHandler? "__lt" hvs
  rw [State.lessEqualPlan, State.lessEqualPlan, h.compare?_eq hv hv']
  rcases t.compare? w w' with _ | r
  · revert hle
    rcases s.operatorHandler? "__le" [v, v'] with _ | f <;>
      rcases t.operatorHandler? "__le" [w, w'] with _ | g <;> intro hle <;> cases hle
    · exact .ofHandler hlt (.cons hv' (.cons hv .nil)) (fun _ _ _ hvw => hvw.isFalsey_eq) _
    · next hfg => exact .handle hfg hvs fun _ _ _ hvw => congrArg (!·) hvw.isFalsey_eq
  · cases r with
    | error e => exact .give (.error e)
    | ok b => exact .give (.ok rfl)

/-- **The operation of an instruction** does corresponding things on corresponding operands. -/
theorem operationPlan (code : UInt8) (hv : v.Corresponds ρ w) (hv' : v'.Corresponds ρ w') :
    (s.operationPlan code v v').Corresponds ρ Value.Corresponds (t.operationPlan code w w') := by
  unfold State.operationPlan
  rcases OpCode.ofCode? code with _ | op
  · exact .give (.error _)
  cases op with
  | unm => exact h.negatePlan hv
  | le =>
    -- the truth value of the comparison is made a value
    have hplan := h.lessEqualPlan hv hv'
    dsimp only
    revert hplan
    generalize s.lessEqualPlan v v' = p
    generalize t.lessEqualPlan w w' = q
    intro hplan
    cases hplan with
    | give hr =>
      cases hr with
      | error e => exact .give (.error e)
      | ok hb => exact .give (.ok (hb ▸ .of_isPlain (Value.isPlain_bool _)))
    | handle hf hvs hfinish =>
      refine .handle hf hvs fun ρ' v w hvw => ?_
      rw [hfinish ρ' v w hvw]
      exact .of_isPlain (Value.isPlain_bool _)
  | add | sub | mul | div | mod | idiv => exact h.arithPlan _ hv hv'
  | _ => exact .give (.error _)

/-! ## Registers -/

lemma operands (word : UInt32) (base : Nat) :
    Outcomes (fun a b => a.1.Corresponds ρ b.1 ∧ a.2.Corresponds ρ b.2)
      (State.operands word base s).1 (State.operands word base t).1 := by
  simp only [State.operands, register, bind_apply, ite_run, throw_apply]
  split
  · exact .error _
  · simp only [bind_apply, get_apply, andThen_ok, pure_apply, ite_run, throw_apply]
    split
    · exact .error _
    · exact .ok ⟨h.stack _, h.stack _⟩

lemma aboveRegisters (base : Nat) : (s.aboveRegisters base).Corresponds ρ (t.aboveRegisters base) :=
  { h with
    top := by
      change max s.top _ = max t.top _
      rw [h.top] }

lemma setRegister (base i : Nat) (hv : v.Corresponds ρ w) :
    Mirrors (setRegister base i v) (setRegister base i w) ρ s t Silently := by
  have hx := setRegister_ite base i v s
  have hy := setRegister_ite base i w t
  by_cases hlimit : stackLimit ≤ base + i
  · rw [if_pos hlimit] at hx hy
    exact .of_apply hx hy h rfl (.error _)
  · rw [if_neg hlimit] at hx hy
    exact .of_apply hx hy (h.withStack (h.stack.set hv _)) rfl (.ok trivial)

end State.Corresponds

/-! ## Invocations -/

variable {T : HostProgram σ → HostProgram σ → Prop} {I : Pairing → Heap → Prop} {ρ : Pairing}
  {m n : Machine σ}

/-- **Two invocations enter corresponding programs**, or none. -/
theorem Invocation.enters?_corresponds (h : m.Corresponds T ρ n) (i : Invocation) {vs ws : List Value}
    (hvs : List.Forall₂ (Value.Corresponds ρ) vs ws) :
    Option.Rel (Machine.Enters T ρ n.state.heap) ((i.fill vs).enters? m) ((i.fill ws).enters? n) := by
  have hvalue := Value.Corresponds.getD hvs
  cases i with
  | call nargs nresults | protectedCall nargs nresults =>
    exact MachineM.callEnters?_corresponds h nargs
  | arith op a b =>
    exact MachineM.planEnters?_corresponds h (h.state.arithPlan op (hvalue 0) (hvalue 1))
  | negate a => exact MachineM.planEnters?_corresponds h (h.state.negatePlan (hvalue 0))
  | lessEqual a b =>
    exact MachineM.planEnters?_corresponds h (h.state.lessEqualPlan (hvalue 0) (hvalue 1))
  | arithAt op a b =>
    exact MachineM.planEnters?_corresponds h
      (h.state.arithPlan op (h.state.valueAt a) (h.state.valueAt b))
  | negateAt a => exact MachineM.planEnters?_corresponds h (h.state.negatePlan (h.state.valueAt a))
  | lessEqualAt a b =>
    exact MachineM.planEnters?_corresponds h
      (h.state.lessEqualPlan (h.state.valueAt a) (h.state.valueAt b))
  | instruction code word base =>
    have hoperands := h.state.operands word base
    simp only [fill, enters?]
    revert hoperands
    rcases (State.operands word base m.state).1 with e | ⟨b, c⟩ <;>
      rcases (State.operands word base n.state).1 with e' | ⟨b', c'⟩ <;> intro hoperands <;>
      cases hoperands
    · exact .none
    · next hbc =>
      exact MachineM.planEnters?_corresponds (h.withState (h.state.aboveRegisters base))
        (h.state.operationPlan code hbc.1 hbc.2)

namespace MachineM

variable {enter : HostProgram σ → MachineM σ Nat}

/-- The result of an operator is pushed. -/
lemma mirrored_push (hstable : Pairing.Stable I) {x y : MachineM σ Value}
    (h : Mirrored T I (x m) (y n) Value.Corresponds) :
    Mirrored T I ((x >>= fun v => MachineM.lift (State.push v)) m)
      ((y >>= fun v => MachineM.lift (State.push v)) n) State.Silently := by
  refine h.bind fun v w ρ' m' n' _ _ h' hI hv => ?_
  refine .onStack hstable h' hI (h'.state.push hv) ?_ ?_ <;> rw [State.push_apply] <;> split <;> rfl

/-- An instruction in corresponding machines. -/
lemma mirrored_instruction (hstable : Pairing.Stable I) (h : m.Corresponds T ρ n) {code : UInt8}
    {word : UInt32} {base : Nat}
    (henter : EntersMirrored T I ρ n.state.heap enter
      ((Invocation.instruction code word base).enters? m)
      ((Invocation.instruction code word base).enters? n)) :
    Mirrored T I (instruction enter code word base m) (instruction enter code word base n)
      State.Silently := by
  have hoperands := h.state.operands word base
  simp only [Invocation.enters?] at henter
  rcases hx : (State.operands word base m.state).1 with e | bc <;>
    rcases hy : (State.operands word base n.state).1 with e' | bc' <;> rw [hx, hy] at hoperands henter <;>
    cases hoperands
  · rw [instruction_of_error enter hx, instruction_of_error enter hy]
    exact .of_corresponds h (henter.nothing rfl) (.error e)
  next hbc =>
    have habove : Machine.Corresponds T ρ (m.withState (m.state.aboveRegisters base))
        (n.withState (n.state.aboveRegisters base)) := h.withState (h.state.aboveRegisters base)
    have hplan := habove.state.operationPlan code hbc.1 hbc.2
    have hoperation := mirrored_follow hstable habove hplan henter
    rw [← operation_apply, ← operation_apply] at hoperation
    rw [instruction_of_ok enter hx, instruction_of_ok enter hy]
    dsimp only
    -- the top is put back, and the result goes to the target
    revert hoperation
    rcases operation enter code bc.1 bc.2 (m.withState (m.state.aboveRegisters base)) with ⟨r, m'⟩
    rcases operation enter code bc'.1 bc'.2 (n.withState (n.state.aboveRegisters base)) with ⟨r', n'⟩
    rintro ⟨ρ', hI, hcorr, hr⟩
    have hback : Machine.Corresponds T ρ' (m'.withState (m'.state.withTop m.state.top))
        (n'.withState (n'.state.withTop n.state.top)) :=
      h.state.top ▸ hcorr.withState (hcorr.state.withTop m.state.top)
    cases hr with
    | error e => exact .of_corresponds hback hI (.error e)
    | ok hv =>
      exact .onStack hstable hback hI (hback.state.setRegister base _ hv) (State.heap_setRegister ..)
        (State.heap_setRegister ..)

/-- **Invocations** in corresponding machines correspond if the programs that are entered do. -/
theorem mirrored_invoke (hstable : Pairing.Stable I) (h : m.Corresponds T ρ n) (i : Invocation)
    {vs ws : List Value} (hvs : List.Forall₂ (Value.Corresponds ρ) vs ws)
    (henter : EntersMirrored T I ρ n.state.heap enter ((i.fill vs).enters? m) ((i.fill ws).enters? n))
    (hfits : (invoke enter (i.fill vs) m).2.state.heap.Fits)
    (hfits' : (invoke enter (i.fill ws) n).2.state.heap.Fits) :
    Mirrored T I (invoke enter (i.fill vs) m) (invoke enter (i.fill ws) n) fun ρ a b =>
      Answer.Corresponds ρ ((i.fill vs).report a) ((i.fill ws).report b) := by
  have hvalue := Value.Corresponds.getD hvs
  cases i with
  | call nargs nresults => exact (mirrored_call h henter).mono fun _ _ _ _ => .same nofun
  | protectedCall nargs nresults =>
    exact (mirrored_protectedCall hstable h henter hfits hfits').mono fun _ _ _ _ => .same nofun
  | arith op a b =>
    have hplan := h.state.arithPlan op (hvalue 0) (hvalue 1)
    have hfollow := mirrored_follow hstable h hplan henter
    rw [← arith_apply, ← arith_apply] at hfollow
    exact hfollow.mono fun _ _ _ hv => .value hv
  | negate a =>
    have hfollow := mirrored_follow hstable h (h.state.negatePlan (hvalue 0)) henter
    rw [← negate_apply, ← negate_apply] at hfollow
    exact hfollow.mono fun _ _ _ hv => .value hv
  | lessEqual a b =>
    have hplan := h.state.lessEqualPlan (hvalue 0) (hvalue 1)
    have hfollow := mirrored_follow hstable h hplan henter
    rw [← lessEqual_apply, ← lessEqual_apply] at hfollow
    refine hfollow.mono ?_
    rintro _ b _ rfl
    exact .same nofun
  | arithAt op a b =>
    have hplan := h.state.arithPlan op (h.state.valueAt a) (h.state.valueAt b)
    have hfollow := mirrored_follow hstable h hplan henter
    rw [← arith_apply, ← arith_apply] at hfollow
    change Mirrored T I (arithAt enter op a b m) (arithAt enter op a b n) _
    rw [arithAt_apply, arithAt_apply]
    exact (mirrored_push hstable hfollow).mono fun _ _ _ _ => .same nofun
  | negateAt a =>
    have hfollow := mirrored_follow hstable h (h.state.negatePlan (h.state.valueAt a)) henter
    rw [← negate_apply, ← negate_apply] at hfollow
    change Mirrored T I (negateAt enter a m) (negateAt enter a n) _
    rw [negateAt_apply, negateAt_apply]
    exact (mirrored_push hstable hfollow).mono fun _ _ _ _ => .same nofun
  | lessEqualAt a b =>
    have hplan := h.state.lessEqualPlan (h.state.valueAt a) (h.state.valueAt b)
    have hfollow := mirrored_follow hstable h hplan henter
    rw [← lessEqual_apply, ← lessEqual_apply] at hfollow
    change Mirrored T I (lessEqualAt enter a b m) (lessEqualAt enter a b n) _
    rw [lessEqualAt_apply, lessEqualAt_apply]
    refine hfollow.mono ?_
    rintro _ b _ rfl
    exact .same nofun
  | instruction code word base =>
    exact (mirrored_instruction hstable h henter).mono fun _ _ _ _ => .same nofun

end MachineM

end ScriptCore
