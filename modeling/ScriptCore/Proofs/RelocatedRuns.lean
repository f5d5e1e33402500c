import Mathlib
import ScriptCore.Proofs.RelocatedCalls

set_option relaxedAutoImplicit false
set_option autoImplicit false

/-!
# Runs at different places

A program whose operations are relative to its frame does not tell where the frame lies: run in two
frames with the same values, it comes through the same operations with the same answers, and leaves
the same values, as long as there is room on both stacks. Operators need even less: their handlers are
pushed first, so it does not matter what was on the stack before.

## Main definitions

* `ScriptCore.Invocation.Fits`, `ScriptCore.Configuration.Fits` — there is room for what the next
  operation puts on the stack.
* `ScriptCore.Configuration.AsksRelative` — the next operation is relative to the frame.
* `ScriptCore.Configuration.Alike` — configurations that differ in the places of their frames only.

## Main results

* `ScriptCore.MachineM.relocates_follow` — operators, in machines that merely agree.
* `ScriptCore.MachineM.relocates_invoke` — what a function may call.
* `ScriptCore.Configuration.relocates_run` — programs.
* `ScriptCore.Configuration.Visits.alike` — what two runs come through.
-/

namespace ScriptCore

variable {σ α : Type}

/-! ## Handlers -/

/-- There is room for the handler of a plan and its arguments above the top. -/
def Plan.Fits (top : Nat) : Plan α → Prop
  | give _ => True
  | handle _ args _ => top + (args.length + 1) ≤ stackLimit

namespace MachineM

open State

variable {enter : HostProgram σ → MachineM σ Nat} {m n : Machine σ} {nargs : Nat}

/-- The program a call enters is the same in two machines with the same values from that of the
function on, in frames with the same values. -/
lemma callEnters?_related (hsize : nargs < m.state.size) (hsize' : nargs < n.state.size)
    (h : m.Related (AlikeFrom (m.state.top - nargs - 1) (n.state.top - nargs - 1)) n)
    {body : HostProgram σ} {k : Machine σ} (hk : m.callEnters? nargs = some (body, k)) :
    ∃ k', n.callEnters? nargs = some (body, k') ∧ k.Related Alike k' := by
  have hm : m.state.size = m.state.top - m.state.base := rfl
  have hcallee := callee_alikeFrom hsize hsize' h
  obtain ⟨slot, i, hc, rfl⟩ := Machine.callEnters?_eq_some_iff.mp hk
  obtain ⟨-, rfl, -⟩ := callee_eq_ok_iff.mp hc
  rw [hc] at hcallee
  have hcallee : (callee nargs n).1 = .ok (n.state.top - nargs - 1, i, body) := hcallee
  exact ⟨n.entered _ i, Machine.callEnters?_of_callee hcallee, alike_entered h (by omega) i⟩

section Handlers

variable (hm : m.state.Bounded) (hn : n.state.Bounded) (h : m.Related Agree n)

include hm hn h

/-- A handler and its arguments are pushed in two machines that agree: they are then the same from
where the tops were on. -/
lemma pushAll_related (handler : Value) {args : List Value}
    (hfits : m.state.top + (args.length + 1) ≤ stackLimit)
    (hfits' : n.state.top + (args.length + 1) ≤ stackLimit) :
    ∃ s t, State.pushAll (handler :: args) m.state = (.ok (), s) ∧
      State.pushAll (handler :: args) n.state = (.ok (), t) ∧
      s.top - args.length - 1 = m.state.top ∧ t.top - args.length - 1 = n.state.top ∧
      args.length < s.size ∧ args.length < t.size ∧ s.Bounded ∧ t.Bounded ∧
      (m.withState s).Related (AlikeFrom m.state.top n.state.top) (n.withState t) := by
  have hbase := hm.base_le
  have hbase' := hn.base_le
  have hsize : ∀ s : State, s.size = s.top - s.base := fun _ => rfl
  have hpush := pushAll_of_fits (handler :: args) m.state hfits
  have hpush' := pushAll_of_fits (handler :: args) n.state hfits'
  obtain ⟨-, -, halike⟩ :=
    (AlikeFrom.of_agree h.state hm.top_le hn.top_le).pushAll (handler :: args) hfits hfits'
  rw [hpush, hpush'] at halike
  refine ⟨_, _, hpush, hpush', ?_, ?_, ?_, ?_, ⟨?_, hfits⟩, ⟨?_, hfits'⟩, h.imp halike⟩
  all_goals simp only [hsize, top_withTop, base_withTop, base_withStack, List.length_cons]
  all_goals omega

/-- The program an operator enters is the same in two machines that agree. -/
lemma plan_enters?_related (p : Plan α) (hfits : p.Fits m.state.top) (hfits' : p.Fits n.state.top)
    {body : HostProgram σ} {k : Machine σ} (hk : p.enters? m = some (body, k)) :
    ∃ k', p.enters? n = some (body, k') ∧ k.Related Alike k' := by
  cases p with
  | give r => cases hk
  | handle handler args finish =>
    obtain ⟨s, t, hs, ht, htop, htop', hsize, hsize', -, -, halike⟩ :=
      pushAll_related hm hn h handler hfits hfits'
    rw [Plan.enters?, hs] at hk
    rw [Plan.enters?, ht]
    exact callEnters?_related hsize hsize' (by simpa only [Machine.state_withState, htop, htop']) hk

/-- The handler is called on its arguments, and its result is the same. -/
lemma pushAndCall_related {handler : Value} {args : List Value}
    (hfits : m.state.top + (args.length + 1) ≤ stackLimit)
    (hfits' : n.state.top + (args.length + 1) ≤ stackLimit)
    (henter : Enters enter ((Plan.handle handler args id).enters? m)
      ((Plan.handle handler args id).enters? n)) :
    (pushAndCall enter handler args n).1 = (pushAndCall enter handler args m).1 ∧
      (pushAndCall enter handler args m).2.Related Agree (pushAndCall enter handler args n).2 ∧
      (pushAndCall enter handler args m).2.state.top ≤ stackLimit ∧
      (pushAndCall enter handler args n).2.state.top ≤ stackLimit := by
  obtain ⟨s, t, hs, ht, htop, htop', hsize, hsize', hbs, hbt, halike⟩ :=
    pushAll_related hm hn h handler hfits hfits'
  simp only [Plan.enters?, hs, ht] at henter
  have hfrom : (m.withState s).Related
      (AlikeFrom (s.top - args.length - 1) (t.top - args.length - 1)) (n.withState t) := by
    rwa [htop, htop']
  have hcall : Relocates (call enter args.length 1) _ _ _ (m.withState s) (n.withState t) :=
    relocates_call_from hbs hbt hsize hsize' hfrom henter (resultsFit_one hbs) (resultsFit_one hbt)
  have hstep : ∀ (k : Machine σ) u, State.pushAll (handler :: args) k.state = (.ok (), u) →
      pushAndCall enter handler args k = andThen (call enter args.length 1 (k.withState u))
        fun _ l => ((State.pop l.state).1, l.withState (State.pop l.state).2) := by
    intro k u hu
    rw [pushAndCall_eq, bind_apply, lift_apply, hu, andThen_ok, bind_apply]
    rfl
  rw [hstep m s hs, hstep n t ht]
  cases hr : (call enter args.length 1 (m.withState s)).1 with
  | error e =>
    have hr' := hcall.result.trans hr
    rw [← Prod.eta (call enter args.length 1 (m.withState s)), hr,
      ← Prod.eta (call enter args.length 1 (n.withState t)), hr']
    exact ⟨rfl, ⟨hcall.related.state.toAgree, hcall.related.bodies, hcall.related.host⟩,
      hcall.related.state.top_le, hcall.related.state.top_le'⟩
  | ok u =>
    have hr' := hcall.result.trans hr
    have hone : (1 : Int) ≠ -1 := by decide
    have htop₁ := top_call_of_ok hone hr
    have hsize₁ : s.size = s.top - s.base := rfl
    have hsize₂ : t.size = t.top - t.base := rfl
    have hpop := hcall.related.state.pop (by rw [hcall.tidy.base, Machine.state_withState]; omega)
      (by rw [hcall.tidy'.base, Machine.state_withState]; omega)
      (by rw [htop₁, Machine.state_withState, Int.toNat_one]; omega)
    rw [← Prod.eta (call enter args.length 1 (m.withState s)), hr,
      ← Prod.eta (call enter args.length 1 (n.withState t)), hr']
    exact ⟨hpop.1, hcall.related.imp hpop.2.1, hpop.2.2⟩

/-- **The call of a handler** in two machines that agree has the same result and leaves two machines
that agree. -/
lemma relocates_callHandler {handler : Value} {args : List Value}
    (hfits : m.state.top + (args.length + 1) ≤ stackLimit)
    (hfits' : n.state.top + (args.length + 1) ≤ stackLimit)
    (henter : Enters enter ((Plan.handle handler args id).enters? m)
      ((Plan.handle handler args id).enters? n)) :
    Relocates (callHandler enter handler args) (AlikeFrom m.state.top n.state.top) m.state.top
      n.state.top m n := by
  obtain ⟨hresult, hrelated, htop, htop'⟩ := pushAndCall_related hm hn h hfits hfits' henter
  refine ⟨?_, ?_, ?_, ?_⟩
  · rw [callHandler_apply, callHandler_apply, hresult]
  · rw [callHandler_apply, callHandler_apply]
    exact hrelated.imp (.unwind_of_agree hrelated.state htop htop' hm.top_le hn.top_le)
  · exact tidy_callHandler handler args hm fun body k hk =>
      henter.tidy (plan_enters?_related hm hn h (.handle handler args id) hfits hfits') hk
  · exact tidy_callHandler handler args hn fun body k hk =>
      henter.tidy' (plan_enters?_related hn hm (h.symm h.state.symm) (.handle handler args id) hfits' hfits) hk

end Handlers

/-- Whatever an operator does, the top is as before. -/
lemma top_follow (enter : HostProgram σ → MachineM σ Nat) (p : Plan α) (m : Machine σ) : (p.follow enter m).2.state.top = m.state.top := by
  cases p with
  | give r => rw [Plan.follow, ofExcept_apply]
  | handle handler args finish =>
    have htop : (callHandler enter handler args m).2.state.top = m.state.top := by
      rw [callHandler_apply]
      rfl
    rw [Plan.follow, map_apply]
    rcases hr : callHandler enter handler args m with ⟨_ | v, k⟩ <;> rw [hr] at htop <;> exact htop

/-- **An operator** has the same result in two machines that agree, and leaves two machines that
agree. -/
lemma relocates_follow (hm : m.state.Bounded) (hn : n.state.Bounded) (h : m.Related Agree n)
    (p : Plan α) (hfits : p.Fits m.state.top) (hfits' : p.Fits n.state.top)
    (henter : Enters enter (p.enters? m) (p.enters? n)) :
    Relocates (p.follow enter) (AlikeFrom m.state.top n.state.top) m.state.top n.state.top m n := by
  cases p with
  | give r =>
    refine ⟨?_, ?_, ?_, ?_⟩ <;> simp only [Plan.follow, ofExcept_apply]
    · exact ⟨.of_agree h.state hm.top_le hn.top_le, h.bodies, h.host⟩
    · exact .refl le_rfl hm.top_le
    · exact .refl le_rfl hn.top_le
  | handle handler args finish =>
    obtain ⟨hresult, hrelated, htidy, htidy'⟩ := relocates_callHandler hm hn h hfits hfits' henter
    have hmap : ∀ k : Machine σ, (Plan.handle handler args finish).follow enter k =
        ((callHandler enter handler args k).1.map finish, (callHandler enter handler args k).2) := by
      intro k
      rw [Plan.follow, map_apply]
      rcases callHandler enter handler args k with ⟨_ | v, l⟩ <;> rfl
    refine ⟨?_, ?_, ?_, ?_⟩ <;> simp only [hmap, hresult]
    · exact hrelated
    · exact htidy
    · exact htidy'

/-- An action that cannot tell two machines apart, if there is room for it in both. -/
lemma relocates_lift {x : Action α} (hx : Relocatable x) (htidy : KeepsTidy x)
    (h : m.Related Alike n) (hfits : (x m.state).1 ≠ .error .stackOverflow)
    (hfits' : (x n.state).1 ≠ .error .stackOverflow) :
    Relocates (lift x) Alike m.state.base n.state.base m n := by
  obtain ⟨hresult, halike⟩ := hx m.state n.state h.state hfits hfits'
  exact ⟨hresult, h.imp halike, htidy m.state h.state.bounded, htidy n.state h.state.bounded'⟩

/-- Operations one after the other. -/
lemma Relocates.bind {β : Type} {x : MachineM σ α} {f : α → MachineM σ β}
    (hx : Relocates x Alike m.state.base n.state.base m n)
    (hf : ∀ a m' n', x m = (.ok a, m') → x n = (.ok a, n') → m'.Related Alike n' →
      Relocates (f a) Alike m'.state.base n'.state.base m' n') :
    Relocates (x >>= f) Alike m.state.base n.state.base m n := by
  obtain ⟨hresult, hrelated, htidy, htidy'⟩ := hx
  have hbase := htidy.base
  have hbase' := htidy'.base
  rcases hm : x m with ⟨r, m'⟩
  rcases hn : x n with ⟨r', n'⟩
  rw [hm] at hresult hrelated htidy hbase
  rw [hn] at hresult hrelated htidy' hbase'
  obtain rfl : r' = r := hresult
  dsimp only at hrelated htidy htidy' hbase hbase'
  cases r' with
  | error e =>
    refine ⟨?_, ?_, ?_, ?_⟩ <;> simp only [bind_apply, hm, hn, andThen_error]
    · exact hrelated
    · exact htidy
    · exact htidy'
  | ok a =>
    obtain ⟨hresult, hrelated, hnext, hnext'⟩ := hf a m' n' hm hn hrelated
    rw [hbase] at hnext
    rw [hbase'] at hnext'
    refine ⟨?_, ?_, ?_, ?_⟩ <;> simp only [bind_apply, hm, hn, andThen_ok]
    · exact hresult
    · exact hrelated
    · exact htidy.trans hnext
    · exact htidy'.trans hnext'

lemma Relocates.congr {x y : MachineM σ α} {R : State → State → Prop} {floor floor' : Nat}
    (hm : x m = y m) (hn : x n = y n) (hy : Relocates y R floor floor' m n) :
    Relocates x R floor floor' m n :=
  ⟨by rw [hm, hn]; exact hy.result, by rw [hm, hn]; exact hy.related, by rw [hm]; exact hy.tidy,
    by rw [hn]; exact hy.tidy'⟩

end MachineM

/-! ## Invocations -/

/-- There is room for the result of a plan, if it gives one. -/
def Plan.ResultFits (enter : HostProgram σ → MachineM σ Nat) (m : Machine σ) (p : Plan Value) : Prop :=
  ∀ v, (p.follow enter m).1 = .ok v → m.state.top < stackLimit

/-- There is room for what an invocation puts on the stack: the results of a call, a handler and its
arguments, the result of an operator on indices. An instruction has its handler above all
registers. -/
def Invocation.Fits (enter : HostProgram σ → MachineM σ Nat) (m : Machine σ) : Invocation → Prop
  | call nargs nresults | protectedCall nargs nresults => MachineM.ResultsFit enter nargs nresults m
  | arith op a b => (m.state.arithPlan op a b).Fits m.state.top
  | negate a => (m.state.negatePlan a).Fits m.state.top
  | lessEqual a b => (m.state.lessEqualPlan a b).Fits m.state.top
  | arithAt op a b =>
    let p := m.state.arithPlan op (m.state.valueAt a) (m.state.valueAt b)
    p.Fits m.state.top ∧ p.ResultFits enter m
  | negateAt a =>
    let p := m.state.negatePlan (m.state.valueAt a)
    p.Fits m.state.top ∧ p.ResultFits enter m
  | lessEqualAt a b => (m.state.lessEqualPlan (m.state.valueAt a) (m.state.valueAt b)).Fits m.state.top
  | instruction code word base =>
    base + State.registerWindow ≤ stackLimit ∧
      ∀ b c, (State.operands word base m.state).1 = .ok (b, c) →
        (m.state.operationPlan code b c).Fits (m.state.aboveRegisters base).top

namespace MachineM

open State

variable {enter : HostProgram σ → MachineM σ Nat} {m n : Machine σ}

section Frames

variable (h : m.Related Alike n)

include h

/-- An operator in two frames with the same values. -/
lemma relocates_plan (p : Plan α) (hfits : p.Fits m.state.top) (hfits' : p.Fits n.state.top)
    (henter : Enters enter (p.enters? m) (p.enters? n)) :
    Relocates (p.follow enter) Alike m.state.base n.state.base m n := by
  have hm := h.state.bounded
  have hn := h.state.bounded'
  have hsize := h.state.size_eq
  have hsize₁ : m.state.size = m.state.top - m.state.base := rfl
  have hsize₂ : n.state.size = n.state.top - n.state.base := rfl
  have hbase := hn.base_le
  exact .lift h hm.base_le (by omega) le_rfl fun _ =>
    relocates_follow hm hn ⟨h.state.toAgree, h.bodies, h.host⟩ p hfits hfits' henter

/-- An operator in two frames with the same values, with its result pushed. -/
lemma relocates_plan_push (p : Plan Value) (hfits : p.Fits m.state.top ∧ p.ResultFits enter m)
    (hfits' : p.Fits n.state.top ∧ p.ResultFits enter n)
    (henter : Enters enter (p.enters? m) (p.enters? n)) :
    Relocates (p.follow enter >>= fun v => lift (State.push v)) Alike m.state.base n.state.base
      m n := by
  refine (relocates_plan h p hfits.1 hfits'.1 henter).bind fun v m' n' hm' hn' hrelated => ?_
  -- the top is as before, so there is room for the result
  have hroom : ∀ {k k' : Machine σ}, p.follow enter k = (.ok v, k') → p.ResultFits enter k →
      (State.push v k'.state).1 ≠ .error .stackOverflow := by
    intro k k' hk hfit
    have htop := top_follow enter p k
    have hlt := hfit v (by rw [hk])
    rw [hk] at htop
    rw [push_apply, if_neg (by rw [htop]; omega)]
    exact fun heq => by cases heq
  exact relocates_lift (.push v) (.push v) hrelated (hroom hm' hfits.2) (hroom hn' hfits'.2)

/-- **What a function may call** has the same result and leaves the same values in two frames with the
same values, if what is called does and there is room for it. -/
lemma relocates_invoke {i : Invocation} (hi : i.IsLocal) (hfits : i.Fits enter m)
    (hfits' : i.Fits enter n) (henter : Enters enter (i.enters? m) (i.enters? n)) :
    Relocates (invoke enter i) Alike m.state.base n.state.base m n := by
  cases i with
  | call nargs nresults => exact relocates_call h henter hfits hfits'
  | protectedCall nargs nresults => exact relocates_protectedCall h henter hfits hfits'
  | arith op a b =>
    simp only [Invocation.Fits, Invocation.enters?, h.state.arithPlan_eq] at hfits hfits' henter
    refine .congr (arith_apply enter op a b m) ?_ (relocates_plan h _ hfits hfits' henter)
    rw [← h.state.arithPlan_eq]
    exact arith_apply enter op a b n
  | negate a =>
    simp only [Invocation.Fits, Invocation.enters?, h.state.negatePlan_eq] at hfits hfits' henter
    refine .congr (negate_apply enter a m) ?_ (relocates_plan h _ hfits hfits' henter)
    rw [← h.state.negatePlan_eq]
    exact negate_apply enter a n
  | lessEqual a b =>
    simp only [Invocation.Fits, Invocation.enters?, h.state.lessEqualPlan_eq] at hfits hfits' henter
    refine .congr (lessEqual_apply enter a b m) ?_ (relocates_plan h _ hfits hfits' henter)
    rw [← h.state.lessEqualPlan_eq]
    exact lessEqual_apply enter a b n
  | arithAt op a b =>
    simp only [Invocation.Fits, Invocation.enters?, h.state.arithPlan_eq, h.state.valueAt_eq]
      at hfits hfits' henter
    refine .congr ?_ ?_ (relocates_plan_push h _ hfits hfits' henter)
    · rw [invoke, arithAt_apply, bind_apply, bind_apply, arith_apply]
    · rw [invoke, arithAt_apply, bind_apply, bind_apply, arith_apply, h.state.arithPlan_eq,
        h.state.valueAt_eq, h.state.valueAt_eq]
  | negateAt a =>
    simp only [Invocation.Fits, Invocation.enters?, h.state.negatePlan_eq, h.state.valueAt_eq]
      at hfits hfits' henter
    refine .congr ?_ ?_ (relocates_plan_push h _ hfits hfits' henter)
    · rw [invoke, negateAt_apply, bind_apply, bind_apply, negate_apply]
    · rw [invoke, negateAt_apply, bind_apply, bind_apply, negate_apply, h.state.negatePlan_eq,
        h.state.valueAt_eq]
  | lessEqualAt a b =>
    simp only [Invocation.Fits, Invocation.enters?, h.state.lessEqualPlan_eq, h.state.valueAt_eq]
      at hfits hfits' henter
    refine .congr ?_ ?_ (relocates_plan h _ hfits hfits' henter)
    · rw [invoke, lessEqualAt_apply, lessEqual_apply]
      rfl
    · rw [invoke, lessEqualAt_apply, lessEqual_apply, h.state.lessEqualPlan_eq, h.state.valueAt_eq,
        h.state.valueAt_eq]
      rfl
  | instruction code word base => exact hi.elim

/-- The program an invocation enters is the same in two frames with the same values, and it starts in
two frames with the same values. -/
lemma enters?_related {i : Invocation} (hi : i.IsLocal) (hfits : i.Fits enter m)
    (hfits' : i.Fits enter n) {body : HostProgram σ} {k : Machine σ} (hk : i.enters? m = some (body, k)) :
    ∃ k', i.enters? n = some (body, k') ∧ k.Related Alike k' := by
  have hm := h.state.bounded
  have hn := h.state.bounded'
  have hagree : m.Related Agree n := ⟨h.state.toAgree, h.bodies, h.host⟩
  have hcall : ∀ {nargs : Nat}, m.callEnters? nargs = some (body, k) →
      ∃ k', n.callEnters? nargs = some (body, k') ∧ k.Related Alike k' := by
    intro nargs hk
    have hsize : nargs < m.state.size := by
      by_contra hle
      rw [Machine.callEnters?, callee_of_size_le (by omega)] at hk
      cases hk
    have hsize' : nargs < n.state.size := h.state.size_eq ▸ hsize
    have hsize₁ : m.state.size = m.state.top - m.state.base := rfl
    have hsize₂ : n.state.size = n.state.top - n.state.base := rfl
    have hsame := h.state.size_eq
    have hraise := h.state.from_base.raise (d := m.state.size - nargs - 1) (by omega)
    have hslot : m.state.base + (m.state.size - nargs - 1) = m.state.top - nargs - 1 := by omega
    have hslot' : n.state.base + (m.state.size - nargs - 1) = n.state.top - nargs - 1 := by omega
    rw [hslot, hslot'] at hraise
    exact callEnters?_related hsize hsize' ⟨hraise, h.bodies, h.host⟩ hk
  cases i with
  | call nargs nresults | protectedCall nargs nresults => exact hcall hk
  | arith op a b =>
    simp only [Invocation.Fits, Invocation.enters?, h.state.arithPlan_eq] at hfits' ⊢
    exact plan_enters?_related hm hn hagree _ hfits hfits' hk
  | negate a =>
    simp only [Invocation.Fits, Invocation.enters?, h.state.negatePlan_eq] at hfits' ⊢
    exact plan_enters?_related hm hn hagree _ hfits hfits' hk
  | lessEqual a b =>
    simp only [Invocation.Fits, Invocation.enters?, h.state.lessEqualPlan_eq] at hfits' ⊢
    exact plan_enters?_related hm hn hagree _ hfits hfits' hk
  | arithAt op a b =>
    simp only [Invocation.Fits, Invocation.enters?, h.state.arithPlan_eq, h.state.valueAt_eq]
      at hfits' ⊢
    exact plan_enters?_related hm hn hagree _ hfits.1 hfits'.1 hk
  | negateAt a =>
    simp only [Invocation.Fits, Invocation.enters?, h.state.negatePlan_eq, h.state.valueAt_eq]
      at hfits' ⊢
    exact plan_enters?_related hm hn hagree _ hfits.1 hfits'.1 hk
  | lessEqualAt a b =>
    simp only [Invocation.Fits, Invocation.enters?, h.state.lessEqualPlan_eq, h.state.valueAt_eq]
      at hfits' ⊢
    exact plan_enters?_related hm hn hagree _ hfits hfits' hk
  | instruction code word base => exact hi.elim

end Frames

end MachineM

/-! ## Runs -/

/-- Requests relative to the frame keep to it. -/
lemma Request.IsRelative.isTidy {r : Request} (h : r.IsRelative) : r.IsTidy := by
  obtain ⟨hlocal, -⟩ := h
  cases r <;> trivial

namespace Configuration

/-- The next operation is relative to the frame. -/
def AsksRelative (c : Configuration σ) : Prop :=
  match c.program with
  | .ask r _ => r.IsRelative
  | .invoke i _ => i.IsLocal
  | _ => True

/-- There is room for what the next operation puts on the stack. -/
def Fits (c : Configuration σ) : Prop :=
  match c.program with
  | .ask r _ => (r.answer c.machine.state).1 ≠ .error .stackOverflow
  | .invoke i _ => i.Fits (HostProgram.runWithin c.levels) c.machine
  | _ => True

/-- Two configurations are the same apart from the place of their frames, which have the same
values. -/
structure Alike (c d : Configuration σ) : Prop where
  levels : d.levels = c.levels
  program : d.program = c.program
  machine : c.machine.Related State.Alike d.machine

open MachineM

/-- One operation in two frames with the same values. -/
lemma step_related {levels : Nat} {p q : HostProgram σ} {m m' n : Machine σ}
    (h : m.Related State.Alike n) (hp : AsksRelative ⟨levels, p, m⟩) (hfits : Fits ⟨levels, p, m⟩)
    (hfits' : Fits ⟨levels, p, n⟩)
    (henter : ∀ i next, p = .invoke i next →
      Enters (HostProgram.runWithin levels) (i.enters? m) (i.enters? n))
    (hstep : p.step (HostProgram.runWithin levels) m = some (q, m')) :
    ∃ n', p.step (HostProgram.runWithin levels) n = some (q, n') ∧ m'.Related State.Alike n' ∧
      m.state.Tidy m.state.base m'.state ∧ n.state.Tidy n.state.base n'.state := by
  have hm := h.state.bounded
  have hn := h.state.bounded'
  cases p with
  | done | fail => cases hstep
  | ask r next =>
    obtain ⟨rfl, rfl⟩ := Prod.mk.inj (Option.some.inj hstep)
    obtain ⟨hresult, hrelated, htidy, htidy'⟩ :=
      relocates_lift (Request.relocatable_answer hp) (Request.tidy_answer hp.isTidy) h hfits hfits'
    refine ⟨(lift r.answer n).2, ?_, hrelated, htidy, htidy'⟩
    rw [HostProgram.step, hresult]
  | invoke i next =>
    obtain ⟨rfl, rfl⟩ := Prod.mk.inj (Option.some.inj hstep)
    obtain ⟨hresult, hrelated, htidy, htidy'⟩ :=
      relocates_invoke h hp hfits hfits' (henter i next rfl)
    refine ⟨(invoke (HostProgram.runWithin levels) i n).2, ?_, hrelated, htidy, htidy'⟩
    rw [HostProgram.step, hresult]
  | define name body upvalues next =>
    obtain ⟨rfl, rfl⟩ := Prod.mk.inj (Option.some.inj hstep)
    obtain ⟨hvalue, halike⟩ := h.state.addNative name upvalues
    refine ⟨n.addFunction name body upvalues, ?_,
      ⟨halike, congrArg (·.push body) h.bodies, h.host⟩,
      .of_eq hm.base_le hm.top_le rfl rfl rfl, .of_eq hn.base_le hn.top_le rfl rfl rfl⟩
    rw [HostProgram.step, hvalue]
  | fetch next =>
    obtain ⟨rfl, rfl⟩ := Prod.mk.inj (Option.some.inj hstep)
    refine ⟨n, ?_, h, .refl hm.base_le hm.top_le, .refl hn.base_le hn.top_le⟩
    rw [HostProgram.step, h.host]
  | update f next =>
    obtain ⟨rfl, rfl⟩ := Prod.mk.inj (Option.some.inj hstep)
    refine ⟨n.withHost (f n.host), rfl, ⟨h.state, h.bodies, ?_⟩, .refl hm.base_le hm.top_le,
      .refl hn.base_le hn.top_le⟩
    exact congrArg f h.host

/-- One level of calls: a program is relocated if the programs its invocations enter are. -/
lemma relocates_run_of_enter {levels : Nat}
    (henter : ∀ (m n : Machine σ) i next,
      (∀ c, Visits ⟨levels, .invoke i next, m⟩ c → c.AsksRelative ∧ c.Fits) →
      (∀ c, Visits ⟨levels, .invoke i next, n⟩ c → c.Fits) →
      Enters (HostProgram.runWithin levels) (i.enters? m) (i.enters? n))
    (p : HostProgram σ) (m n : Machine σ) (h : m.Related State.Alike n)
    (hm : ∀ c, Visits ⟨levels, p, m⟩ c → c.AsksRelative ∧ c.Fits)
    (hn : ∀ c, Visits ⟨levels, p, n⟩ c → c.Fits) :
    Relocates (p.run (HostProgram.runWithin levels)) State.Alike m.state.base n.state.base m n := by
  have hbm := h.state.bounded
  have hbn := h.state.bounded'
  -- the rest behind the first operation comes through less
  have hrest : ∀ {p q : HostProgram σ} {m m' n : Machine σ}, m.Related State.Alike n →
      (∀ c, Visits ⟨levels, p, m⟩ c → c.AsksRelative ∧ c.Fits) →
      (∀ c, Visits ⟨levels, p, n⟩ c → c.Fits) →
      p.step (HostProgram.runWithin levels) m = some (q, m') →
      (∀ n', m'.Related State.Alike n' →
        (∀ c, Visits ⟨levels, q, m'⟩ c → c.AsksRelative ∧ c.Fits) →
        (∀ c, Visits ⟨levels, q, n'⟩ c → c.Fits) →
        Relocates (q.run (HostProgram.runWithin levels)) State.Alike m'.state.base n'.state.base
          m' n') →
      Relocates (p.run (HostProgram.runWithin levels)) State.Alike m.state.base n.state.base m n := by
    intro p q m m' n h hm hn hstep hq
    obtain ⟨n', hstep', hrelated, htidy, htidy'⟩ := step_related h (hm _ .start).1 (hm _ .start).2
      (hn _ .start) (fun i next hpi => by subst hpi; exact henter m n i next hm hn) hstep
    have hq := hq n' hrelated (fun c hc => hm c (.step (by rw [step, hstep]; rfl) hc))
      fun c hc => hn c (.step (by rw [step, hstep']; rfl) hc)
    rw [htidy.base, htidy'.base] at hq
    have hrun := HostProgram.run_of_step hstep
    have hrun' := HostProgram.run_of_step hstep'
    exact ⟨by rw [hrun, hrun', hq.result], by rw [hrun, hrun']; exact hq.related,
      by rw [hrun]; exact htidy.trans hq.tidy, by rw [hrun']; exact htidy'.trans hq.tidy'⟩
  induction p generalizing m n with
  | done | fail =>
    exact ⟨rfl, h, .refl hbm.base_le hbm.top_le, .refl hbn.base_le hbn.top_le⟩
  | ask r next ih =>
    exact hrest h hm hn rfl fun n' h' hm' hn' =>
      ih _ _ n' h' hm' hn' h'.state.bounded h'.state.bounded'
  | invoke i next ih =>
    exact hrest h hm hn rfl fun n' h' hm' hn' =>
      ih _ _ n' h' hm' hn' h'.state.bounded h'.state.bounded'
  | define name body upvalues next _ ih =>
    exact hrest h hm hn rfl fun n' h' hm' hn' =>
      ih _ _ n' h' hm' hn' h'.state.bounded h'.state.bounded'
  | fetch next ih =>
    exact hrest h hm hn rfl fun n' h' hm' hn' =>
      ih _ _ n' h' hm' hn' h'.state.bounded h'.state.bounded'
  | update f next ih =>
    exact hrest h hm hn rfl fun n' h' hm' hn' =>
      ih _ n' h' hm' hn' h'.state.bounded h'.state.bounded'

/-- The programs that are entered do not tell their frames apart, if all they come through is relative
to frames and fits on the stack in both places.

*Proof sketch.* By induction on the levels of calls: the programs that these enter in turn have one
level less. -/
lemma enters_runWithin {levels : Nat} {x y : Option (HostProgram σ × Machine σ)}
    (hx : ∀ l body k, levels = l + 1 → x = some (body, k) → ∀ c, Visits ⟨l, body, k⟩ c →
      c.AsksRelative ∧ c.Fits)
    (hy : ∀ l body k, levels = l + 1 → y = some (body, k) → ∀ c, Visits ⟨l, body, k⟩ c → c.Fits) :
    Enters (HostProgram.runWithin levels) x y := by
  induction levels generalizing x y with
  | zero =>
    intro body k k' _ _ halike
    have hk := halike.state.bounded
    have hk' := halike.state.bounded'
    exact ⟨rfl, halike, .refl hk.base_le hk.top_le, .refl hk'.base_le hk'.top_le⟩
  | succ levels ih =>
    intro body k k' hk hk' halike
    refine relocates_run_of_enter (fun m n i next hm hn => ih ?_ ?_) body k k' halike
      (hx levels body k rfl hk) (hy levels body k' rfl hk')
    · rintro l body k rfl hk c hc
      exact hm c (.enter hk hc)
    · rintro l body k rfl hk c hc
      exact hn c (.enter hk hc)

/-- **A program does not tell where its frame lies**, if all it comes through is relative to frames
and fits on the stack in both places. -/
theorem relocates_run {levels : Nat} {p : HostProgram σ} {m n : Machine σ}
    (h : m.Related State.Alike n)
    (hm : ∀ c, Visits ⟨levels, p, m⟩ c → c.AsksRelative ∧ c.Fits)
    (hn : ∀ c, Visits ⟨levels, p, n⟩ c → c.Fits) :
    Relocates (p.run (HostProgram.runWithin levels)) State.Alike m.state.base n.state.base m n := by
  refine relocates_run_of_enter (fun m n i next hm hn => enters_runWithin ?_ ?_) p m n h hm hn
  · rintro l body k rfl hk c hc
    exact hm c (.enter hk hc)
  · rintro l body k rfl hk c hc
    exact hn c (.enter hk hc)

/-- **Two runs at different places go together**: whatever the one comes through, the other comes
through the same, in a frame with the same values. -/
theorem Visits.alike {c d c' : Configuration σ} (h : Visits c d) (halike : c.Alike c')
    (hc : ∀ e, Visits c e → e.AsksRelative ∧ e.Fits) (hc' : ∀ e, Visits c' e → e.Fits) :
    ∃ d', Visits c' d' ∧ d.Alike d' := by
  induction h generalizing c' with
  | start => exact ⟨c', .start, halike⟩
  | @step c d e hstep he ih =>
    obtain ⟨_, _, m⟩ := c
    obtain ⟨levels, p, n⟩ := c'
    obtain ⟨rfl, rfl, hmachine⟩ := halike
    obtain ⟨⟨q, m'⟩, hq, rfl⟩ := Option.map_eq_some_iff.mp hstep
    have henter : ∀ i next, p = .invoke i next →
        Enters (HostProgram.runWithin levels) (i.enters? m) (i.enters? n) := by
      rintro i next rfl
      refine enters_runWithin ?_ ?_
      · rintro l body k rfl hk e he
        exact hc e (.enter hk he)
      · rintro l body k rfl hk e he
        exact hc' e (.enter hk he)
    obtain ⟨n', hq', hrelated, -⟩ := step_related hmachine (hc _ .start).1 (hc _ .start).2
      (hc' _ .start) henter hq
    have hstep' : Configuration.step ⟨levels, p, n⟩ = some ⟨levels, q, n'⟩ := by
      rw [Configuration.step, hq']
      rfl
    have hnext : Alike ⟨levels, q, m'⟩ ⟨levels, q, n'⟩ := ⟨rfl, rfl, hrelated⟩
    obtain ⟨d', hd', hdd'⟩ := ih hnext (fun e he => hc e (.step hstep he))
      fun e he => hc' e (.step hstep' he)
    exact ⟨d', .step hstep' hd', hdd'⟩
  | @enter levels i next m k body d hk hd ih =>
    obtain ⟨_, _, n⟩ := c'
    obtain ⟨rfl, rfl, hmachine⟩ := halike
    obtain ⟨k', hk', hrelated⟩ := enters?_related hmachine (hc _ .start).1 (hc _ .start).2
      (hc' _ .start) hk
    have hnext : Alike ⟨levels, body, k⟩ ⟨levels, body, k'⟩ := ⟨rfl, rfl, hrelated⟩
    obtain ⟨d', hd', hdd'⟩ := ih hnext (fun e he => hc e (.enter hk he)) fun e he => hc' e (.enter hk' he)
    exact ⟨d', .enter hk' hd', hdd'⟩

end Configuration

end ScriptCore
