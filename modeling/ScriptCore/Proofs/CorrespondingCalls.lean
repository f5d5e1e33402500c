import Mathlib
import ScriptCore.Proofs.CorrespondingRequests

set_option relaxedAutoImplicit false
set_option autoImplicit false

/-!
# Corresponding calls

A call in one of two corresponding machines finds a function exactly if it does so in the other one,
and then it is the same function. What the two programs of the function do may differ in collections,
so a pairing need not keep all its pairs while they run. If the programs lead to corresponding machines
nevertheless, so do the calls, and so does everything that makes calls. What is to be known of the
pairing in the end besides is left open: it has to be such that it goes on holding while the pairing
grows.

## Main definitions

* `ScriptCore.Machine.Corresponds` — machines with corresponding states and programs.
* `ScriptCore.Pairing.Stable` — what goes on holding while a pairing grows.
* `ScriptCore.MachineM.Mirrored` — outcomes that correspond.

## Main results

* `ScriptCore.MachineM.Mirrored.bind` — sequences.
* `ScriptCore.MachineM.mirrored_call`, `ScriptCore.MachineM.mirrored_protectedCall` — calls.
* `ScriptCore.MachineM.mirrored_callHandler`, `ScriptCore.MachineM.mirrored_follow` — handlers of
  operators.
-/

namespace ScriptCore

variable {σ α β γ δ : Type}

/-- What holds of a pairing and the second heap goes on holding while the pairing grows, as long as the
heaps correspond. -/
def Pairing.Stable (I : Pairing → Heap → Prop) : Prop :=
  ∀ ρ k ρ' h' k', I ρ k → ρ.Extends k ρ' k' → Heap.Corresponds ρ' h' k' → I ρ' k'

/-! ## Machines -/

variable {T : HostProgram σ → HostProgram σ → Prop} {I : Pairing → Heap → Prop} {ρ ρ' : Pairing}

/-- Two machines correspond: their states do, and the programs of their functions are related. -/
structure Machine.Corresponds (T : HostProgram σ → HostProgram σ → Prop) (ρ : Pairing)
    (m n : Machine σ) : Prop where
  state : m.state.Corresponds ρ n.state
  bodies : ∀ i : Nat, Option.Rel T m.bodies[i]? n.bodies[i]?

lemma Machine.Corresponds.withState {m n : Machine σ} (h : m.Corresponds T ρ n) {s t : State}
    (hst : s.Corresponds ρ' t) : (m.withState s).Corresponds T ρ' (n.withState t) :=
  ⟨hst, h.bodies⟩

/-- What two machines enter corresponds: related programs, from corresponding machines, with the
heap `k` in the second one. -/
structure Machine.Enters (T : HostProgram σ → HostProgram σ → Prop) (ρ : Pairing) (k : Heap)
    (e e' : HostProgram σ × Machine σ) : Prop where
  body : T e.1 e'.1
  machine : e.2.Corresponds T ρ e'.2
  heap : e'.2.state.heap = k

/-- Two plans correspond: they give corresponding results, or they call corresponding handlers. -/
inductive Plan.Corresponds (ρ : Pairing) (post : Pairing → α → β → Prop) : Plan α → Plan β → Prop
  | give {r : Except RuntimeError α} {r' : Except RuntimeError β} (hr : Outcomes (post ρ) r r') :
    Corresponds ρ post (.give r) (.give r')
  | handle {f g : Value} {vs ws : List Value} {finish : Value → α} {finish' : Value → β}
    (hf : f.Corresponds ρ g) (hvs : List.Forall₂ (Value.Corresponds ρ) vs ws)
    (hfinish : ∀ ρ' v w, v.Corresponds ρ' w → post ρ' (finish v) (finish' w)) :
    Corresponds ρ post (.handle f vs finish) (.handle g ws finish')

namespace MachineM

/-- Two outcomes correspond: the machines do, under a pairing of which `I` holds, and the results agree
as `post` says. -/
def Mirrored (T : HostProgram σ → HostProgram σ → Prop) (I : Pairing → Heap → Prop)
    (p : Except RuntimeError α × Machine σ) (q : Except RuntimeError β × Machine σ)
    (post : Pairing → α → β → Prop) : Prop :=
  ∃ ρ, I ρ q.2.state.heap ∧ p.2.Corresponds T ρ q.2 ∧ Outcomes (post ρ) p.1 q.1

variable {m n m' n' : Machine σ} {post : Pairing → α → β → Prop} {k : Heap}

namespace Mirrored

lemma of_corresponds {r : Except RuntimeError α} {r' : Except RuntimeError β}
    (h : m.Corresponds T ρ n) (hI : I ρ n.state.heap) (hr : Outcomes (post ρ) r r') :
    Mirrored T I (r, m) (r', n) post := ⟨ρ, hI, h, hr⟩

lemma mono {p : Except RuntimeError α × Machine σ} {q : Except RuntimeError β × Machine σ}
    {post' : Pairing → α → β → Prop} (h : Mirrored T I p q post)
    (himp : ∀ ρ a b, post ρ a b → post' ρ a b) : Mirrored T I p q post' := by
  obtain ⟨ρ, hI, hcorr, hr⟩ := h
  exact ⟨ρ, hI, hcorr, hr.imp (himp ρ)⟩

/-- An action on the states. -/
lemma lift {x : Action α} {y : Action β} (hstable : Pairing.Stable I) (h : m.Corresponds T ρ n)
    (hI : I ρ n.state.heap) (hxy : State.Mirrors x y ρ m.state n.state post)
    (hfits : (x m.state).2.heap.Fits) (hfits' : (y n.state).2.heap.Fits) :
    Mirrored T I (MachineM.lift x m) (MachineM.lift y n) post := by
  obtain ⟨ρ', hext, hcorr, hr⟩ := hxy hfits hfits'
  exact ⟨ρ', hstable _ _ _ _ _ hI hext hcorr.heap, h.withState hcorr, hr⟩

/-- An action that leaves the heaps alone. -/
lemma onStack {x : Action α} {y : Action β} (hstable : Pairing.Stable I) (h : m.Corresponds T ρ n)
    (hI : I ρ n.state.heap) (hxy : State.Mirrors x y ρ m.state n.state post)
    (hx : (x m.state).2.heap = m.state.heap) (hy : (y n.state).2.heap = n.state.heap) :
    Mirrored T I (MachineM.lift x m) (MachineM.lift y n) post :=
  .lift hstable h hI hxy (hx ▸ h.state.heap.regular.fits) (hy ▸ h.state.heap.regular'.fits)

/-- **Sequences** correspond if their parts do. -/
theorem bind {x : MachineM σ α} {y : MachineM σ β} {f : α → MachineM σ γ} {g : β → MachineM σ δ}
    {post' : Pairing → γ → δ → Prop} (h : Mirrored T I (x m) (y n) post)
    (hfg : ∀ a b ρ m' n', x m = (.ok a, m') → y n = (.ok b, n') → m'.Corresponds T ρ n' →
      I ρ n'.state.heap → post ρ a b → Mirrored T I (f a m') (g b n') post') :
    Mirrored T I ((x >>= f) m) ((y >>= g) n) post' := by
  obtain ⟨ρ, hI, hcorr, hr⟩ := h
  rw [bind_apply, bind_apply]
  rcases hx : x m with ⟨r, m'⟩
  rcases hy : y n with ⟨r', n'⟩
  rw [hx, hy] at hcorr hr
  rw [hy] at hI
  cases hr with
  | error e => exact ⟨ρ, hI, hcorr, .error e⟩
  | ok hab => exact hfg _ _ ρ m' n' hx hy hcorr hI hab

end Mirrored

/-! ## Calls -/

section Calls

variable {enter : HostProgram σ → MachineM σ Nat} {nargs : Nat} {nresults : Int}

/-- Two machines find the same callee, with related programs, or none for the same reason. -/
lemma callee_corresponds (h : m.Corresponds T ρ n) (nargs : Nat) :
    Outcomes (fun c c' => c.1 = c'.1 ∧ c.2.1 = c'.2.1 ∧ T c.2.2 c'.2.2) (callee nargs m).1
      (callee nargs n).1 := by
  have hv := h.state.stack (n.state.top - nargs - 1)
  simp only [callee, bind_apply, get_apply, andThen_ok, ite_run, throw_apply, h.state.size_eq,
    h.state.top, h.state.frames, hv.function?_eq, hv.typeName_eq]
  split
  · exact .error _
  rcases (n.state.stack.get (n.state.top - nargs - 1)).function? with _ | i
  · exact .error _
  have hbody := h.bodies i
  revert hbody
  rw [Option.bind_some, Option.bind_some]
  rcases m.bodies[i]? with _ | body <;> rcases n.bodies[i]? with _ | body' <;> intro hbody <;>
    cases hbody
  · exact .error _
  next hbody =>
    simp only [Option.map_some, bind_apply, ite_run, throw_apply, pure_apply]
    split
    · exact .error _
    · exact .ok ⟨rfl, rfl, hbody⟩

/-- Two calls enter corresponding programs, or none. -/
lemma callEnters?_corresponds (h : m.Corresponds T ρ n) (nargs : Nat) :
    Option.Rel (Machine.Enters T ρ n.state.heap) (m.callEnters? nargs) (n.callEnters? nargs) := by
  have hcallee := callee_corresponds h nargs
  unfold Machine.callEnters?
  revert hcallee
  rcases (callee nargs m).1 with e | ⟨slot, i, body⟩ <;>
    rcases (callee nargs n).1 with e' | ⟨slot', i', body'⟩ <;> intro hcallee <;> cases hcallee
  · exact .none
  next hc =>
    obtain ⟨rfl, rfl, hbody⟩ := hc
    refine .some ⟨hbody, h.withState ?_, rfl⟩
    exact { h.state with frames := congrArg (_ :: ·) h.state.frames }

/-- What a call does once its function has come back. -/
lemma mirrored_settle (h : m.Corresponds T ρ n) (hI : I ρ n.state.heap) (slot : Nat) (nresults : Int)
    {r r' : Except RuntimeError Nat} (hr : Outcomes Eq r r') :
    Mirrored T I (settle slot nresults r m) (settle slot nresults r' n) State.Silently := by
  cases hr with
  | error e => exact .of_corresponds (h.withState (h.state.unwind slot)) hI (.error e)
  | @ok produced _ hab =>
    subst hab
    have hresults := State.returnResults_apply slot produced nresults m.state
    have hresults' := State.returnResults_apply slot produced nresults n.state
    rw [← h.state.top] at hresults'
    simp only [settle, lift_apply, hresults, hresults']
    have hmoved := fun k src => h.state.withStack (h.state.stack.moveDown k src slot)
    split
    · exact .of_corresponds (h.withState (hmoved _ _)) hI (.error _)
    · exact .of_corresponds (h.withState (((hmoved _ _).clear _ _).withTop _)) hI (.ok trivial)

/-- What is entered leads to corresponding machines, and if nothing is entered, `I` holds already. -/
structure EntersMirrored (T : HostProgram σ → HostProgram σ → Prop) (I : Pairing → Heap → Prop)
    (ρ : Pairing) (k : Heap) (enter : HostProgram σ → MachineM σ Nat)
    (e e' : Option (HostProgram σ × Machine σ)) : Prop where
  nothing : e = none → I ρ k
  program : ∀ body l body' l', e = some (body, l) → e' = some (body', l') →
    Machine.Enters T ρ k (body, l) (body', l') →
      Mirrored T I (enter body l) (enter body' l') State.Equally

/-- **Calls** in corresponding machines correspond if the functions do. -/
theorem mirrored_call (h : m.Corresponds T ρ n)
    (henter : EntersMirrored T I ρ n.state.heap enter (m.callEnters? nargs) (n.callEnters? nargs)) :
    Mirrored T I (call enter nargs nresults m) (call enter nargs nresults n) State.Silently := by
  have hcallee := callee_corresponds h nargs
  have henters := callEnters?_corresponds h nargs
  rcases hc : (callee nargs m).1 with e | ⟨slot, i, body⟩ <;>
    rcases hc' : (callee nargs n).1 with e' | ⟨slot', i', body'⟩ <;> rw [hc, hc'] at hcallee <;>
    cases hcallee
  · rw [call_of_error enter hc, call_of_error enter hc']
    exact .of_corresponds h (henter.nothing (Machine.callEnters?_of_error hc)) (.error e)
  next hcc =>
    obtain ⟨rfl, rfl, hbody⟩ := hcc
    have hm := Machine.callEnters?_of_callee hc
    have hn := Machine.callEnters?_of_callee hc'
    rw [hm, hn] at henters
    rw [call_of_ok enter hc, call_of_ok enter hc']
    cases henters with
    | some hentered =>
      obtain ⟨ρ', hI, hcorr, hr⟩ := henter.program _ _ _ _ hm hn hentered
      have hleft : Machine.Corresponds T ρ' (enter body (m.entered slot i)).2.left
          (enter body' (n.entered slot i)).2.left :=
        hcorr.withState { hcorr.state with frames := congrArg List.tail hcorr.state.frames }
      exact mirrored_settle hleft hI slot nresults hr

/-- Rescuing the state behind an error. -/
lemma mirrors_rescue {s t : State} (h : s.Corresponds ρ t) (depth slot : Nat) (e : RuntimeError) :
    State.Mirrors (State.rescue depth slot e) (State.rescue depth slot e) ρ s t
      State.Silently := by
  -- closing frames and dropping values leaves corresponding states
  have hdropped : State.Corresponds ρ
      ({ s with frames := s.frames.drop (s.frames.length - depth) }.unwind slot)
      ({ t with frames := t.frames.drop (t.frames.length - depth) }.unwind slot) := by
    refine State.Corresponds.unwind ?_ slot
    exact { h with frames := by rw [h.frames] }
  have hreport := (hdropped.intern e.message).bind
    (fun v => (State.Keeps.push v).bind fun _ => .throw e)
    (fun v => (State.Keeps.push v).bind fun _ => .throw e)
    fun v w ρ' s' t' h' _ hv => (h'.push hv).bind (fun _ => .throw e) (fun _ => .throw e)
      fun _ _ ρ'' s'' t'' h'' _ _ => (State.Mirrors.throw e h'' :
        State.Mirrors (throw e : Action Unit) (throw e) ρ'' s'' t'' State.Silently)
  intro hfits hfits'
  exact hreport hfits hfits'

/-- **Protected calls** in corresponding machines correspond: they leave the string of the same
message behind an error. -/
theorem mirrored_protectedCall (hstable : Pairing.Stable I) (h : m.Corresponds T ρ n)
    (henter : EntersMirrored T I ρ n.state.heap enter (m.callEnters? nargs) (n.callEnters? nargs))
    (hfits : (protectedCall enter nargs nresults m).2.state.heap.Fits)
    (hfits' : (protectedCall enter nargs nresults n).2.state.heap.Fits) :
    Mirrored T I (protectedCall enter nargs nresults m) (protectedCall enter nargs nresults n)
      State.Silently := by
  by_cases hsize : m.state.size ≤ nargs
  · rw [protectedCall_of_size_le enter hsize,
      protectedCall_of_size_le enter (h.state.size_eq ▸ hsize)]
    exact .of_corresponds h (henter.nothing (Machine.callEnters?_of_size_le hsize)) (.error _)
  have hsize : nargs < m.state.size := by omega
  have hsize' : nargs < n.state.size := h.state.size_eq ▸ hsize
  obtain ⟨ρ', hI, hcorr, hr⟩ : Mirrored T I (call enter nargs nresults m)
      (call enter nargs nresults n) State.Silently := mirrored_call h henter
  rcases hx : (call enter nargs nresults m).1 with e | u <;>
    rcases hy : (call enter nargs nresults n).1 with e' | u' <;> rw [hx, hy] at hr <;> cases hr
  · rw [protectedCall_of_error enter hsize hx] at hfits ⊢
    rw [protectedCall_of_error enter hsize' hy] at hfits' ⊢
    rw [← h.state.frames, ← h.state.top] at hfits' ⊢
    exact .lift hstable hcorr hI (mirrors_rescue hcorr.state _ _ e) hfits hfits'
  · rw [protectedCall_of_ok enter hsize hx, protectedCall_of_ok enter hsize' hy]
    refine ⟨ρ', hI, hcorr, ?_⟩
    rw [hx, hy]
    exact .ok trivial

/-! ## Handlers -/

/-- Corresponding values are pushed. -/
lemma pushAll_corresponds {s t : State} (h : s.Corresponds ρ t) {vs ws : List Value}
    (hvs : List.Forall₂ (Value.Corresponds ρ) vs ws) :
    (State.pushAll vs s).2.Corresponds ρ (State.pushAll ws t).2 ∧
      (State.pushAll ws t).2.heap = t.heap ∧
      Outcomes Eq (State.pushAll vs s).1 (State.pushAll ws t).1 := by
  induction hvs generalizing s t with
  | nil => exact ⟨h, rfl, .ok rfl⟩
  | cons hv _ ih =>
    rw [State.pushAll_cons, State.pushAll_cons, bind_apply, bind_apply, State.push_apply,
      State.push_apply, ← h.top]
    by_cases hfull : stackLimit ≤ s.top
    · rw [if_pos hfull, if_pos hfull]
      exact ⟨h, rfl, .error _⟩
    · rw [if_neg hfull, if_neg hfull]
      exact ih ((h.withStack (h.stack.set hv _)).withTop _)

/-- Two plans enter corresponding programs, or none. -/
lemma planEnters?_corresponds (h : m.Corresponds T ρ n) {p : Plan α} {q : Plan β}
    (hpq : p.Corresponds ρ post q) :
    Option.Rel (Machine.Enters T ρ n.state.heap) (p.enters? m) (q.enters? n) := by
  cases hpq with
  | give hr => exact .none
  | @handle f g vs ws _ _ hf hvs hfinish =>
    obtain ⟨hcorr, hheap, hr⟩ := pushAll_corresponds h.state (.cons hf hvs)
    rw [Plan.enters?, Plan.enters?, ← hvs.length_eq]
    revert hcorr hheap hr
    rcases State.pushAll (f :: vs) m.state with ⟨_ | u, s⟩ <;>
      rcases State.pushAll (g :: ws) n.state with ⟨_ | u', t⟩ <;> intro hcorr hheap hr <;> cases hr
    · exact .none
    · have hentered := callEnters?_corresponds (h.withState hcorr) vs.length
      rwa [Machine.state_withState, hheap] at hentered

/-- The handler and its arguments are there: it is called, and its result is taken. -/
lemma pushAndCall_of_pushed {m : Machine σ} {f : Value} {vs : List Value} {s : State}
    (hs : State.pushAll (f :: vs) m.state = (.ok (), s)) :
    pushAndCall enter f vs m =
      (call enter vs.length 1 >>= fun _ => MachineM.lift State.pop) (m.withState s) := by
  rw [pushAndCall_eq, bind_apply, lift_apply, hs, andThen_ok]

/-- A result is taken from the stack. -/
lemma mirrored_pop (hstable : Pairing.Stable I) (h : m.Corresponds T ρ n) (hI : I ρ n.state.heap) :
    Mirrored T I (MachineM.lift State.pop m) (MachineM.lift State.pop n) Value.Corresponds := by
  refine .onStack hstable h hI h.state.pop ?_ ?_ <;> rw [State.pop_apply] <;> split <;> rfl

/-- **Handlers** are called in corresponding machines with corresponding results. -/
theorem mirrored_callHandler (hstable : Pairing.Stable I) (h : m.Corresponds T ρ n) {f g : Value}
    (hf : f.Corresponds ρ g) {vs ws : List Value} (hvs : List.Forall₂ (Value.Corresponds ρ) vs ws)
    (henter : EntersMirrored T I ρ n.state.heap enter ((Plan.handle f vs id).enters? m)
      ((Plan.handle g ws id).enters? n)) :
    Mirrored T I (callHandler enter f vs m) (callHandler enter g ws n) Value.Corresponds := by
  have hcalled : Mirrored T I (pushAndCall enter f vs m) (pushAndCall enter g ws n)
      Value.Corresponds := by
    obtain ⟨hcorr, hheap, hr⟩ := pushAll_corresponds h.state (.cons hf hvs)
    rw [Plan.enters?, Plan.enters?, ← hvs.length_eq] at henter
    rcases hs : State.pushAll (f :: vs) m.state with ⟨e | u, s⟩ <;>
      rcases ht : State.pushAll (g :: ws) n.state with ⟨e' | u', t⟩ <;>
      rw [hs, ht] at hcorr hr henter <;> rw [ht] at hheap <;> cases hr
    · rw [pushAndCall_eq, pushAndCall_eq, bind_apply, bind_apply, lift_apply, lift_apply, hs, ht]
      have hI : I ρ (n.withState t).state.heap := hheap ▸ henter.nothing rfl
      exact .of_corresponds (h.withState hcorr) hI (.error e)
    · rw [pushAndCall_of_pushed hs, pushAndCall_of_pushed ht, ← hvs.length_eq]
      have hpushed : Machine.Corresponds T ρ (m.withState s) (n.withState t) := h.withState hcorr
      have hheap' : (n.withState t).state.heap = n.state.heap := hheap
      rw [← hheap'] at henter
      exact (mirrored_call hpushed henter).bind fun _ _ ρ' m' n' _ _ h' hI _ =>
        mirrored_pop hstable h' hI
  obtain ⟨ρ', hI, hcorr', hr'⟩ := hcalled
  rw [callHandler_apply, callHandler_apply, ← h.state.top]
  exact ⟨ρ', hI, hcorr'.withState (hcorr'.state.unwind _), hr'⟩

/-- **Plans** that correspond are followed with corresponding results. -/
theorem mirrored_follow (hstable : Pairing.Stable I) (h : m.Corresponds T ρ n) {p : Plan α}
    {q : Plan β} (hpq : p.Corresponds ρ post q)
    (henter : EntersMirrored T I ρ n.state.heap enter (p.enters? m) (q.enters? n)) :
    Mirrored T I (p.follow enter m) (q.follow enter n) post := by
  cases hpq with
  | give hr =>
    rw [Plan.follow, Plan.follow, ofExcept_apply, ofExcept_apply]
    exact .of_corresponds h (henter.nothing rfl) hr
  | handle hf hvs hfinish =>
    rw [Plan.follow, Plan.follow, map_eq_pure_bind, map_eq_pure_bind]
    refine (mirrored_callHandler hstable h hf hvs henter).bind fun v w ρ' m' n' _ _ h' hI hv => ?_
    exact .of_corresponds h' hI (.ok (hfinish ρ' v w hv))

end Calls

end MachineM

end ScriptCore
