import Mathlib
import ScriptCore.Proofs.CorrespondingCollections
import ScriptCore.Proofs.CorrespondingOperators
import ScriptCore.Proofs.CorrespondingRequests

set_option relaxedAutoImplicit false
set_option autoImplicit false

/-!
# Collections are invisible

A script is run on two new machines, on the second one without its collections. As long as every
value that is still used is rooted where a collection takes place, the two runs come through the same
operations with the same outcomes, up to a renaming of handles. The first run may give out a handle
again that a collection has released; the second one never does. So an object of the second run has
one name throughout, the handle it goes by in the first run. Strings have the names their contents
give them.

The two machines correspond all along. What is known of the runs so far, and of the values the callers
still use, is carried through each call as what goes on holding while the pairing grows.

## Main definitions

* `ScriptCore.Pairing.Named` — names that a pairing keeps to.
* `ScriptCore.Pairing.Tells` — what is known of two runs so far.
* `ScriptCore.Script.Ready` — two machines in which a script goes on in the same way.

## Main results

* `ScriptCore.Script.mirrored_run` — one level of calls.
* `ScriptCore.Script.collections_invisible` — runs from a new machine.
-/

namespace ScriptCore

/-! ## What a script sees -/

namespace Value.Corresponds

variable {ρ : Pairing} {v w v' w' : Value}

lemma blind_eq (h : v.Corresponds ρ w) : v.blind = w.blind := by
  cases h with
  | plain h => rfl
  | object kind hv hw _ =>
    rw [blind, blind, hv, hw, if_neg nofun, if_neg nofun, tag_congr kind]

/-- Corresponding values are raw equal to corresponding values. -/
lemma rawEqual_eq (hρ : Relator.BiUnique ρ) (h : v.Corresponds ρ w) (h' : v'.Corresponds ρ w') :
    v.rawEqual v' = w.rawEqual w' := by
  have hiff : v = v' ↔ w = w' := by
    constructor
    · rintro rfl
      exact h.right_unique hρ h'
    · rintro rfl
      exact h.left_unique hρ h'
  rw [rawEqual, rawEqual, h.number?_eq, h'.number?_eq]
  simp only [hiff]

/-- A function is no object. -/
lemma function (i : Nat) : (Value.function i).Corresponds ρ (Value.function i) := by
  refine .plain ?_
  rw [Value.object?, Value.function, tag_box (by decide)]
  rfl

end Value.Corresponds

section Answers

variable {ρ : Pairing} {r r' : Except RuntimeError Answer}

/-- Outcomes that correspond look the same without handles. -/
lemma Outcomes.blind_eq (h : Outcomes (Answer.Corresponds ρ) r r') :
    r.map Answer.blind = r'.map Answer.blind := by
  cases h with
  | error e => rfl
  | ok h =>
    cases h with
    | value hv => exact congrArg (fun v => Except.ok (Answer.value v)) hv.blind_eq
    | same => rfl

/-- Outcomes that correspond have corresponding results. -/
lemma Outcomes.result (h : Outcomes (Answer.Corresponds ρ) r r') :
    (Answer.result r).Corresponds ρ (Answer.result r') := by
  cases h with
  | error e => exact .nil
  | @ok a b h =>
    cases h with
    | value hv => exact hv
    | same hno =>
      cases a with
      | value v => exact absurd rfl (hno v)
      | _ => exact .nil

lemma Outcomes.map {α β γ δ : Type} {post : γ → δ → Prop} {f : α → γ} {g : β → δ}
    {x : Except RuntimeError α} {y : Except RuntimeError β}
    (h : Outcomes (fun a b => post (f a) (g b)) x y) : Outcomes post (x.map f) (y.map g) := by
  cases h with
  | error e => exact .error e
  | ok h => exact .ok h

end Answers

/-! ## Runs and moments -/

section Runs

variable {σ : Type} {enter : HostProgram (Set Value) → MachineM (Set Value) Nat}
  {inner : HostProgram (Set Value) → Machine (Set Value) → List Moment} {m : Machine (Set Value)}

/-- What an invocation comes through before it ends: the moments of the program it enters. -/
def Invocation.momentsInside (i : Invocation)
    (inner : HostProgram (Set Value) → Machine (Set Value) → List Moment) (m : Machine (Set Value)) :
    List Moment :=
  match i.enters? m with
  | some (body, k) => inner body k
  | none => []

namespace HostProgram

lemma run_ask (r : Request) (next : Except RuntimeError r.Reply → HostProgram (Set Value)) :
    (ask r next).run enter m =
      (next (r.answer m.state).1).run enter (m.withState (r.answer m.state).2) := rfl

lemma moments_ask (r : Request) (next : Except RuntimeError r.Reply → HostProgram (Set Value)) :
    (ask r next).moments enter inner m = r.moment m ::
      (next (r.answer m.state).1).moments enter inner (m.withState (r.answer m.state).2) := rfl

lemma run_invoke (i : Invocation) (next : Except RuntimeError i.Reply → HostProgram (Set Value)) :
    (invoke i next).run enter m =
      (next (MachineM.invoke enter i m).1).run enter (MachineM.invoke enter i m).2 := rfl

lemma moments_invoke (i : Invocation)
    (next : Except RuntimeError i.Reply → HostProgram (Set Value)) :
    (invoke i next).moments enter inner m = i.momentsInside inner m ++
      .operation ((MachineM.invoke enter i m).1.map i.report) (MachineM.invoke enter i m).2.state ::
        (next (MachineM.invoke enter i m).1).moments enter inner (MachineM.invoke enter i m).2 := rfl

lemma run_define (name : String) (body : HostProgram (Set Value)) (upvalues : Array Value)
    (next : Value → HostProgram (Set Value)) :
    (define name body upvalues next).run enter m =
      (next (m.state.addNative name upvalues).1).run enter (m.addFunction name body upvalues) := rfl

lemma moments_define (name : String) (body : HostProgram (Set Value)) (upvalues : Array Value)
    (next : Value → HostProgram (Set Value)) :
    (define name body upvalues next).moments enter inner m =
      .operation (.ok (.value (m.state.addNative name upvalues).1))
          (m.addFunction name body upvalues).state ::
        (next (m.state.addNative name upvalues).1).moments enter inner
          (m.addFunction name body upvalues) := rfl

/-- The host takes up more values while a program goes on. -/
lemma run_fetch_update (f : Set Value → Set Value) (next : Set Value → HostProgram (Set Value)) :
    (fetch fun held => update (fun _ => f held) (next held)).run enter m =
      (next m.host).run enter (m.withHost (f m.host)) := rfl

lemma moments_fetch_update (f : Set Value → Set Value) (next : Set Value → HostProgram (Set Value)) :
    (fetch fun held => update (fun _ => f held) (next held)).moments enter inner m =
      (next m.host).moments enter inner (m.withHost (f m.host)) := rfl

lemma run_update (held : Set Value) (next : HostProgram (Set Value)) :
    (update (fun _ => held) next).run enter m = next.run enter (m.withHost held) := rfl

lemma moments_update (held : Set Value) (next : HostProgram (Set Value)) :
    (update (fun _ => held) next).moments enter inner m = next.moments enter inner (m.withHost held) :=
  rfl

end HostProgram

/-- The moment of an operation that is no collection. -/
lemma Request.moment_fill {r : Request} (hr : r.IsBlind) (vs : List Value) :
    (r.fill vs).moment m =
      .operation (((r.fill vs).answer m.state).1.map (r.fill vs).report)
        ((r.fill vs).answer m.state).2 := by
  cases r <;> first | rfl | exact hr.elim

end Runs

/-! ## Names -/

/-- A pairing keeps to names: every object of the second heap that has a name has one only, and the
objects that are paired have those of their partners, unless they are strings. -/
structure Pairing.Named (naming : Object → Object → Prop) (ρ : Pairing) (k : Heap) : Prop where
  unique : Relator.LeftUnique naming
  inUse : ∀ o o', naming o o' → k.InUse o'
  named : ∀ o o', ρ o o' → ¬ o'.IsString → naming o o'

namespace Pairing.Named

variable {naming : Object → Object → Prop} {ρ ρ' : Pairing} {h k k' : Heap}

/-- **Names stay**, and new objects come by new ones, while a pairing grows. -/
lemma extend (hn : ρ.Named naming k) (hext : ρ.Extends k ρ' k') (hc : h.Corresponds ρ' k') :
    ∃ naming', (∀ o o', naming o o' → naming' o o') ∧ ρ'.Named naming' k' := by
  have hold : ∀ p q o', naming p o' → ρ' q o' → ¬ o'.IsString → p = q := by
    intro p q o' hp hq hs
    exact hn.unique hp (hn.named q o' (hext.old q o' (hn.inUse p o' hp) hs hq) hs)
  refine ⟨fun o o' => naming o o' ∨ (ρ' o o' ∧ ¬ o'.IsString), fun _ _ => .inl, ?_, ?_, ?_⟩
  · rintro p q o' (hp | ⟨hp, hs⟩) (hq | ⟨hq, hs'⟩)
    · exact hn.unique hp hq
    · exact hold p q o' hp hq hs'
    · exact (hold q p o' hq hp hs).symm
    · exact hc.biUnique.1 hp hq
  · rintro o o' (ho | ⟨ho, -⟩)
    · exact hext.inUse o' (hn.inUse o o' ho)
    · exact (hc.inUse o o' ho).2
  · exact fun o o' ho hs => .inr ⟨ho, hs⟩

/-- Pairs may be dropped. -/
lemma weaken (hn : ρ.Named naming k) (hle : ∀ o o', ρ' o o' → ρ o o') : ρ'.Named naming k :=
  ⟨hn.unique, hn.inUse, fun o o' ho => hn.named o o' (hle o o' ho)⟩

/-- The pairing of corresponding heaps is a renaming. -/
lemma renames {s t : State} (hn : ρ.Named naming t.heap) (hc : s.heap.Corresponds ρ t.heap) :
    ρ.Renames naming s t where
  biUnique := hc.biUnique
  total := hc.total
  inUse := hc.inUse
  string o o' ho hs := by
    obtain ⟨hin, hin'⟩ := hc.inUse o o' ho
    cases hc.entries o o' ho with
    | string hi hj => exact ⟨_, _, _, rfl, rfl, ⟨hin, hi⟩, ⟨hin', hj⟩⟩
    | _ => rcases hs with ⟨_, hs⟩ | ⟨_, hs⟩ <;> cases hs
  renamed := hn.named

end Pairing.Named

lemma Moment.Corresponds.mono {naming naming' : Object → Object → Prop} {e e' : Moment}
    (h : e.Corresponds naming e') (hle : ∀ o o', naming o o' → naming' o o') :
    e.Corresponds naming' e' := by
  cases h with
  | operation hρ hr =>
    exact .operation { hρ with renamed := fun o o' ho hs => hle o o' (hρ.renamed o o' ho hs) } hr

/-- **What is known of two runs so far**: they have come through corresponding moments under one
naming, and the values that are kept, of which `kept` has the pairs, correspond. -/
structure Pairing.Tells (kept : Set (Value × Value)) (es es' : List Moment) (ρ : Pairing) (k : Heap) :
    Prop where
  kept : ∀ p ∈ kept, p.1.Corresponds ρ p.2
  moments : ∃ naming, ρ.Named naming k ∧ List.Forall₂ (Moment.Corresponds naming) es es'

namespace Pairing.Tells

variable {kept kept' : Set (Value × Value)} {es es' : List Moment} {ρ : Pairing} {s t : State}

lemma stable : Pairing.Stable (Pairing.Tells kept es es') := by
  intro ρ k ρ' h' k' htells hext hc
  obtain ⟨naming, hn, hes⟩ := htells.moments
  obtain ⟨naming', hle, hn'⟩ := hn.extend hext hc
  exact ⟨fun p hp => (htells.kept p hp).mono hext.le, naming', hn', hes.imp fun _ _ he => he.mono hle⟩

lemma withKept {k : Heap} (h : Tells kept es es' ρ k) (hkept : ∀ p ∈ kept', p.1.Corresponds ρ p.2) :
    Tells kept' es es' ρ k := ⟨hkept, h.moments⟩

/-- One more operation has come to its end. -/
lemma operation (h : Tells kept es es' ρ t.heap) (hc : s.heap.Corresponds ρ t.heap)
    {r r' : Except RuntimeError Answer} (hr : Outcomes (Answer.Corresponds ρ) r r') :
    Tells kept (es ++ [.operation r s]) (es' ++ [.operation r' t]) ρ t.heap := by
  obtain ⟨naming, hn, hes⟩ := h.moments
  exact ⟨h.kept, naming, hn, List.rel_append hes (.cons (.operation (hn.renames hc) hr) .nil)⟩

/-- A collection in the first state. -/
lemma collect (h : Tells kept es es' ρ t.heap) (hrooted : ∀ p ∈ kept, s.Rooted p.1) :
    Tells kept es es' (ρ.reached s) t.heap := by
  obtain ⟨naming, hn, hes⟩ := h.moments
  exact ⟨fun p hp => (h.kept p hp).reached (hrooted p hp), naming, hn.weaken fun _ _ ho => ho.1, hes⟩

end Pairing.Tells

/-! ## Scripts -/

namespace Script

/-- Two programs of one script: with its collections, and without them. -/
def Twins (p q : HostProgram (Set Value)) : Prop :=
  ∃ body : Script, p = body.program [] ∧ q = body.withoutCollections.program []

/-- Some of the results of two runs correspond. -/
structure ResultsCorrespond (is : Set Nat) (ρ : Pairing) (results results' : List Value) : Prop where
  length_eq : results.length = results'.length
  value : ∀ i ∈ is, (results.getD i .nil).Corresponds ρ (results'.getD i .nil)

namespace ResultsCorrespond

variable {is js : Set Nat} {ρ ρ' : Pairing} {results results' : List Value}

lemma subset (h : ResultsCorrespond is ρ results results') (hsub : js ⊆ is) :
    ResultsCorrespond js ρ results results' := ⟨h.length_eq, fun i hi => h.value i (hsub hi)⟩

/-- One more result. -/
lemma append {v w : Value} (h : ResultsCorrespond is ρ results results') (hv : v.Corresponds ρ w) :
    ResultsCorrespond is ρ (results ++ [v]) (results' ++ [w]) := by
  refine ⟨by simp [h.length_eq], fun i hi => ?_⟩
  rcases Nat.lt_or_ge i results.length with hlt | hge
  · rw [List.getD_append _ _ _ _ hlt, List.getD_append _ _ _ _ (h.length_eq ▸ hlt)]
    exact h.value i hi
  · rw [List.getD_append_right _ _ _ _ hge, List.getD_append_right _ _ _ _ (h.length_eq ▸ hge),
      h.length_eq]
    exact Value.Corresponds.getD (.cons hv .nil) _

/-- The values of sources correspond. -/
lemma sources {sources : List Source} (h : ResultsCorrespond (sourced sources) ρ results results') :
    List.Forall₂ (Value.Corresponds ρ) (sources.map (·.value results))
      (sources.map (·.value results')) := by
  rw [List.forall₂_map_left_iff, List.forall₂_map_right_iff, List.forall₂_same]
  intro source hsource
  cases source with
  | plain v hv => exact .plain hv
  | result i => exact h.value i hsource

end ResultsCorrespond

/-- The pairs of some of the results of two runs. -/
def pairsOf (is : Set Nat) (results results' : List Value) : Set (Value × Value) :=
  {p | ∃ i ∈ is, i < results.length ∧ p = (results.getD i .nil, results'.getD i .nil)}

lemma mem_valuesOf_of_mem_pairsOf {is : Set Nat} {results results' : List Value}
    {p : Value × Value} (hp : p ∈ pairsOf is results results') : p.1 ∈ valuesOf is results := by
  obtain ⟨i, hi, hlt, rfl⟩ := hp
  exact ⟨i, hi, by simp [List.getD_eq_getElem?_getD, hlt]⟩

lemma ResultsCorrespond.of_pairsOf {is : Set Nat} {ρ ρ' : Pairing} {results results' : List Value}
    (h : ResultsCorrespond is ρ results results')
    (hpairs : ∀ p ∈ pairsOf is results results', p.1.Corresponds ρ' p.2) :
    ResultsCorrespond is ρ' results results' := by
  refine ⟨h.length_eq, fun i hi => ?_⟩
  rcases Nat.lt_or_ge i results.length with hlt | hge
  · exact hpairs _ ⟨i, hi, hlt, rfl⟩
  · rw [List.getD_eq_default _ _ hge, List.getD_eq_default _ _ (h.length_eq ▸ hge)]
    exact .nil

/-- **Two machines in which a script goes on in the same way**: they correspond, with the results it
still uses, and the first host holds on to the values that are kept. -/
structure Ready (kept : Set (Value × Value)) (es es' : List Moment) (is : Set Nat)
    (results results' : List Value) (ρ : Pairing) (m n : Machine (Set Value)) : Prop where
  machine : m.Corresponds Twins ρ n
  told : ρ.Tells kept es es' n.state.heap
  results : ResultsCorrespond is ρ results results'
  held : ∀ p ∈ kept, p.1 ∈ m.host

/-- How two programs are run, and what they come through, corresponds. -/
def RunsAlike (enter : HostProgram (Set Value) → MachineM (Set Value) Nat)
    (inner : HostProgram (Set Value) → Machine (Set Value) → List Moment) (body : Script) : Prop :=
  ∀ (results results' : List Value) (kept : Set (Value × Value)) (es es' : List Moment) (ρ : Pairing)
    (m n : Machine (Set Value)),
    Ready kept es es' body.mentions results results' ρ m n →
    (∀ e ∈ inner (body.program results) m, e.Careful) →
    (∀ e ∈ inner (body.withoutCollections.program results') n, e.Careful) →
    MachineM.Mirrored Twins
      (Pairing.Tells kept (es ++ (inner (body.program results) m).filter Moment.isOperation)
        (es' ++ inner (body.withoutCollections.program results') n))
      (enter (body.program results) m) (enter (body.withoutCollections.program results') n)
      State.Equally

section Level

variable {enter : HostProgram (Set Value) → MachineM (Set Value) Nat}
  {inner : HostProgram (Set Value) → Machine (Set Value) → List Moment}
  {kept : Set (Value × Value)} {es es' : List Moment} {is : Set Nat} {results results' : List Value}
  {ρ ρ' : Pairing} {m n m' n' : Machine (Set Value)} {next : Script}

/-- An operation of each run has come to its end, and the script goes on. -/
lemma RunsAlike.behind (hnext : RunsAlike (HostProgram.run enter) (HostProgram.moments enter inner) next)
    {r r' : Except RuntimeError Answer} {v w : Value} (hm : m.Corresponds Twins ρ n)
    (htold : ρ.Tells kept es es' n.state.heap)
    (hresults : ResultsCorrespond next.mentions ρ (results ++ [v]) (results' ++ [w]))
    (hheld : ∀ p ∈ kept, p.1 ∈ m.host) (hr : Outcomes (Answer.Corresponds ρ) r r')
    (hcareful : ∀ e ∈ (next.program (results ++ [v])).moments enter inner m, e.Careful)
    (hcareful' : ∀ e ∈ (next.withoutCollections.program (results' ++ [w])).moments enter inner n,
      e.Careful) :
    MachineM.Mirrored Twins
      (Pairing.Tells kept
        (es ++ (.operation r m.state ::
          (next.program (results ++ [v])).moments enter inner m).filter Moment.isOperation)
        (es' ++ .operation r' n.state ::
          (next.withoutCollections.program (results' ++ [w])).moments enter inner n))
      ((next.program (results ++ [v])).run enter m)
      ((next.withoutCollections.program (results' ++ [w])).run enter n) State.Equally := by
  have hgoes := hnext _ _ kept _ _ ρ m n ⟨hm, htold.operation hm.state.heap hr, hresults, hheld⟩
    hcareful hcareful'
  rw [List.append_assoc, List.append_assoc] at hgoes
  rw [List.filter_cons_of_pos rfl]
  exact hgoes

/-- A request. -/
lemma runsAlike_ask {r : Request} (hr : r.IsBlind) {sources : List Source}
    {next : Except RuntimeError Answer → Script}
    (hnext : ∀ a, RunsAlike (HostProgram.run enter) (HostProgram.moments enter inner) (next a)) :
    RunsAlike (HostProgram.run enter) (HostProgram.moments enter inner) (.ask r hr sources next) := by
  intro results results' kept es es' ρ m n h hcareful hcareful'
  have hvs := (h.results.subset (show sourced sources ⊆ _ from Set.subset_union_left)).sources
  simp only [withoutCollections, program, HostProgram.moments_ask, HostProgram.run_ask,
    Request.moment_fill hr, List.forall_mem_cons] at hcareful hcareful' ⊢
  obtain ⟨ρ', hext, hcorr, hout⟩ := Request.mirrors_answer hr h.machine.state hvs hcareful.1 hcareful'.1
  have hanswer := Outcomes.map hout
  rw [← hanswer.blind_eq] at hcareful' ⊢
  refine (hnext _).behind (h.machine.withState hcorr)
    (Pairing.Tells.stable _ _ _ _ _ h.told hext hcorr.heap) (.append ?_ hanswer.result) h.held hanswer
    hcareful.2 hcareful'.2
  refine ⟨h.results.length_eq, fun i hi => (h.results.value i ?_).mono hext.le⟩
  exact .inr (Set.mem_iUnion.2 ⟨_, hi⟩)

/-- What an invocation enters leads to corresponding machines. -/
lemma entersMirrored (hinner : ∀ body, RunsAlike enter inner body) {i : Invocation} {vs ws : List Value}
    (hvs : List.Forall₂ (Value.Corresponds ρ) vs ws) (hm : m.Corresponds Twins ρ n)
    (htold : ρ.Tells kept es es' n.state.heap) (hheld : ∀ p ∈ kept, p.1 ∈ m.host)
    (hcareful : ∀ e ∈ (i.fill vs).momentsInside inner m, e.Careful)
    (hcareful' : ∀ e ∈ (i.fill ws).momentsInside inner n, e.Careful) :
    MachineM.EntersMirrored Twins
      (Pairing.Tells kept (es ++ ((i.fill vs).momentsInside inner m).filter Moment.isOperation)
        (es' ++ (i.fill ws).momentsInside inner n)) ρ n.state.heap enter
      ((i.fill vs).enters? m) ((i.fill ws).enters? n) := by
  have henters := i.enters?_corresponds hm hvs
  constructor
  · intro hnone
    rw [hnone] at henters
    rcases hnone' : (i.fill ws).enters? n with _ | e <;> rw [hnone'] at henters
    · simpa [Invocation.momentsInside, hnone, hnone'] using htold
    · cases henters
  · rintro body l body' l' hl hl' ⟨⟨script, rfl, rfl⟩, hmachine, hheap⟩
    rw [Invocation.momentsInside, hl] at hcareful ⊢
    rw [Invocation.momentsInside, hl'] at hcareful' ⊢
    -- the program that is entered starts without results, and the host is that of the caller
    have hhost : l.host = m.host :=
      (congrArg Machine.host (Invocation.enters?_withState hl).1).trans (Machine.host_withState _ _)
    refine hinner script [] [] kept es es' ρ l l' ⟨hmachine, hheap ▸ htold, ⟨rfl, fun i _ => .nil⟩, ?_⟩
      hcareful hcareful'
    rwa [hhost]

/-- An invocation. While it runs, the values that are used behind it are kept as well. -/
lemma runsAlike_invoke (hinner : ∀ body, RunsAlike enter inner body) {i : Invocation}
    {sources : List Source} {next : Except RuntimeError Answer → Script}
    (hnext : ∀ a, RunsAlike (HostProgram.run enter) (HostProgram.moments enter inner) (next a)) :
    RunsAlike (HostProgram.run enter) (HostProgram.moments enter inner) (.invoke i sources next) := by
  intro results results' kept es es' ρ m n h hcareful hcareful'
  have hvs := (h.results.subset (show sourced sources ⊆ _ from Set.subset_union_left)).sources
  have hused := h.results.subset (show (⋃ a, (next a).mentions) ⊆ _ from Set.subset_union_right)
  simp only [withoutCollections, program, HostProgram.moments_fetch_update,
    HostProgram.run_fetch_update, HostProgram.moments_invoke, HostProgram.run_invoke,
    HostProgram.moments_update, HostProgram.run_update, List.forall_mem_append,
    List.forall_mem_cons] at hcareful hcareful' ⊢
  set m₁ := m.withHost (valuesOf (⋃ a, (next a).mentions) results ∪ m.host) with hm₁
  set n₁ := n.withHost (valuesOf (⋃ a, (next a).withoutCollections.mentions) results' ∪ n.host) with hn₁
  have hmachine : m₁.Corresponds Twins ρ n₁ := ⟨h.machine.state, h.machine.bodies⟩
  have htold : ρ.Tells (kept ∪ pairsOf (⋃ a, (next a).mentions) results results') es es'
      n₁.state.heap := by
    refine h.told.withKept ?_
    rintro p (hp | ⟨i, hi, -, rfl⟩)
    · exact h.told.kept p hp
    · exact hused.value i hi
  have hheld : ∀ p ∈ kept ∪ pairsOf (⋃ a, (next a).mentions) results results', p.1 ∈ m₁.host := by
    rintro p (hp | hp)
    · exact .inr (h.held p hp)
    · exact .inl (mem_valuesOf_of_mem_pairsOf hp)
  obtain ⟨ρ', htold', hcorr, hout⟩ := MachineM.mirrored_invoke Pairing.Tells.stable hmachine i hvs
    (entersMirrored hinner hvs hmachine htold hheld hcareful.1 hcareful'.1) hcareful.2.1 hcareful'.2.1
  have hanswer := Outcomes.map hout
  rw [← hanswer.blind_eq] at hcareful' ⊢
  rw [List.filter_append, ← List.append_assoc, ← List.append_assoc]
  refine (hnext _).behind (m := (MachineM.invoke enter _ m₁).2.withHost m.host)
    (n := (MachineM.invoke enter _ n₁).2.withHost n.host) ⟨hcorr.state, hcorr.bodies⟩ (htold'.withKept fun p hp => htold'.kept p (.inl hp))
    (.append ?_ hanswer.result) h.held hanswer hcareful.2.2 hcareful'.2.2
  exact (hused.of_pairsOf fun p hp => htold'.kept p (.inr hp)).subset
    (Set.subset_iUnion (fun a => (next a).mentions) _)

/-- A new function. -/
lemma runsAlike_define {name : String} {body : Script} {upvalues : List Source}
    (hnext : RunsAlike (HostProgram.run enter) (HostProgram.moments enter inner) next) :
    RunsAlike (HostProgram.run enter) (HostProgram.moments enter inner)
      (.define name body upvalues next) := by
  intro results results' kept es es' ρ m n h hcareful hcareful'
  have hus := (h.results.subset (show sourced upvalues ⊆ _ from Set.subset_union_left)).sources
  obtain ⟨hvalue, hstate⟩ := h.machine.state.addNative name hus
  simp only [withoutCollections, program, HostProgram.moments_define, HostProgram.run_define,
    List.forall_mem_cons] at hcareful hcareful' ⊢
  have hf : (m.state.addNative name (upvalues.map (·.value results)).toArray).1.Corresponds ρ
      (n.state.addNative name (upvalues.map (·.value results')).toArray).1 :=
    hvalue ▸ .function _
  refine hnext.behind ⟨hstate, fun i => ?_⟩ h.told (.append (h.results.subset ?_) hf) h.held
    (.ok (.value hf)) hcareful.2 hcareful'.2
  · change Option.Rel Twins (m.bodies.push _)[i]? (n.bodies.push _)[i]?
    rw [Array.getElem?_push, Array.getElem?_push, size_eq_of_optionRel h.machine.bodies]
    split
    · exact .some ⟨body, rfl, rfl⟩
    · exact h.machine.bodies i
  · exact Set.subset_union_right

/-- A comparison of two values. -/
lemma runsAlike_compare {a b : Source} {next : Bool → Script}
    (hnext : ∀ c, RunsAlike (HostProgram.run enter) (HostProgram.moments enter inner) (next c)) :
    RunsAlike (HostProgram.run enter) (HostProgram.moments enter inner) (.compare a b next) := by
  intro results results' kept es es' ρ m n h hcareful hcareful'
  have hvs := (h.results.subset (show sourced [a, b] ⊆ _ from Set.subset_union_left)).sources
  obtain ⟨ha, hb, -⟩ : (a.value results).Corresponds ρ (a.value results') ∧
      (b.value results).Corresponds ρ (b.value results') ∧ True := by simpa using hvs
  have hequal := ha.rawEqual_eq h.machine.state.heap.biUnique hb
  simp only [withoutCollections, program] at hcareful hcareful' ⊢
  rw [← hequal] at hcareful' ⊢
  refine hnext _ results results' kept es es' ρ m n { h with results := h.results.subset ?_ } hcareful
    hcareful'
  exact fun i hi => .inr (Set.mem_iUnion.2 ⟨_, hi⟩)

/-- A collection in the first run. What is still used is rooted, so it keeps its partner. -/
lemma runsAlike_collect
    (hnext : RunsAlike (HostProgram.run enter) (HostProgram.moments enter inner) next) :
    RunsAlike (HostProgram.run enter) (HostProgram.moments enter inner) (.collect next) := by
  intro results results' kept es es' ρ m n h hcareful hcareful'
  simp only [withoutCollections, program, HostProgram.moments_fetch_update,
    HostProgram.run_fetch_update, HostProgram.moments_ask, HostProgram.run_ask,
    HostProgram.moments_update, HostProgram.run_update, List.forall_mem_cons] at hcareful hcareful' ⊢
  obtain ⟨⟨hrooted, hbeyond⟩, hcareful⟩ := hcareful
  have hcorr := h.machine.state.collect hbeyond
  have hkept : ∀ p ∈ kept, m.state.Rooted p.1 := fun p hp => hrooted _ (.inr (h.held p hp))
  refine hnext results results' kept es es' (ρ.reached m.state) _ n
    ⟨⟨hcorr, h.machine.bodies⟩, h.told.collect hkept, h.results.of_pairsOf ?_, h.held⟩ hcareful
    hcareful'
  intro p hp
  obtain ⟨i, hi, -, rfl⟩ := id hp
  exact (h.results.value i hi).reached (hrooted _ (.inl (mem_valuesOf_of_mem_pairsOf hp)))

/-- **One level of calls**: a script runs alike with and without its collections, if the functions it
calls do. -/
theorem mirrored_run (hinner : ∀ body, RunsAlike enter inner body) (script : Script) :
    RunsAlike (HostProgram.run enter) (HostProgram.moments enter inner) script := by
  induction script with
  | done k | fail e =>
    intro results results' kept es es' ρ m n h _ _
    refine ⟨ρ, ?_, h.machine, ?_⟩
    · change Pairing.Tells kept (es ++ []) (es' ++ []) ρ n.state.heap
      rw [List.append_nil, List.append_nil]
      exact h.told
    · first
      | exact .ok rfl
      | exact .error e
  | ask r hr sources next ih => exact runsAlike_ask hr ih
  | invoke i sources next ih => exact runsAlike_invoke hinner ih
  | define name body upvalues next _ ih => exact runsAlike_define ih
  | compare a b next ih => exact runsAlike_compare ih
  | collect next ih => exact runsAlike_collect ih

end Level

/-- Scripts run alike with calls nested up to any number of levels. -/
lemma runsAlike_within (levels : Nat) (script : Script) :
    RunsAlike (HostProgram.runWithin levels) (HostProgram.momentsWithin levels) script := by
  induction levels generalizing script with
  | zero =>
    intro results results' kept es es' ρ m n h _ _
    refine ⟨ρ, ?_, h.machine, .error _⟩
    change Pairing.Tells kept (es ++ []) (es' ++ []) ρ n.state.heap
    rw [List.append_nil, List.append_nil]
    exact h.told
  | succ levels ih => exact mirrored_run ih script

end Script

/-! ## A new machine -/

namespace State

/-- **A new machine corresponds to itself**: globals, registry and the table of libraries are paired,
and so is the key of the last. -/
lemma corresponds_new : ∃ ρ, State.new.Corresponds ρ State.new := by
  have hfew : ∀ {h : Heap} {n : Nat}, h.HasAtMost n → n ≤ 4 → h.Fits := fun hh hle =>
    hh.fits (hle.trans (by decide))
  have hfew₀ := Heap.hasAtMost_empty 0
  have hregular : Heap.empty.Regular :=
    ⟨Heap.sound_empty.orderly.wellFormed, Heap.sound_empty.orderly.interning,
      Heap.sound_empty.orderly.unmarked, hfew hfew₀ (by decide)⟩
  have hempty : Heap.empty.Corresponds (fun _ _ => False) Heap.empty :=
    { regular := hregular
      regular' := hregular
      biUnique := ⟨nofun, nofun⟩
      total := fun o ho => by
        cases o <;> exact absurd (Heap.inUse_iff.1 ho).1 (Nat.not_lt_zero _)
      inUse := nofun
      entries := nofun }
  have hfew₁ := hfew₀.newTable 64
  have hfew₂ := hfew₁.newTable 4
  have hfew₃ := hfew₂.newTable 16
  have hfew₄ := hfew₃.intern (Text.bytes loadedKey)
  obtain ⟨ρ₁, -, h₁, hglobals⟩ := hempty.newTable 64 (hfew hfew₁ (by decide)) (hfew hfew₁ (by decide))
  obtain ⟨ρ₂, he₂, h₂, hregistry⟩ := h₁.newTable 4 (hfew hfew₂ (by decide)) (hfew hfew₂ (by decide))
  obtain ⟨ρ₃, he₃, h₃, hloaded⟩ := h₂.newTable 16 (hfew hfew₃ (by decide)) (hfew hfew₃ (by decide))
  obtain ⟨ρ₄, he₄, h₄, hkey⟩ := h₃.intern (Text.bytes loadedKey) (hfew hfew₄ le_rfl)
    (hfew hfew₄ le_rfl)
  have hregistry' := he₄.le _ _ (he₃.le _ _ hregistry)
  obtain ⟨h₅, -⟩ := h₄.setEntry hregistry' (h₄.value hkey) (h₄.value (he₄.le _ _ hloaded))
  exact ⟨ρ₄,
    { heap := h₅
      stack := fun i => by
        change (Slots.empty.get i).Corresponds ρ₄ (Slots.empty.get i)
        rw [Slots.get_empty]
        exact .nil
      top := rfl
      frames := rfl
      natives := fun i => .none
      globals := he₄.le _ _ (he₃.le _ _ (he₂.le _ _ hglobals))
      registry := hregistry'
      broken := rfl }⟩

end State

/-! ## Runs -/

namespace Script

/-- **Collections are invisible.** Let a script run on a new machine, and without its collections, and
those of its functions, on another one. If every value that is still used is rooted at every collection
of the first run, and neither runs out of handles, then both come to the same result, and they come
through the same operations, each with the same error or with answers that are the same up to a
renaming of the handles then in use. The renaming is one-to-one at every operation, it takes strings to
strings of the same content, and an object of the second run has one name throughout.

*Proof sketch.* By induction on the levels of calls, and for each on the script. The machines correspond
under a pairing of the objects that are still used; an operation lets the pairing grow, and a collection
takes the pairs away that cannot be reached. -/
theorem collections_invisible (script : Script) (levels : Nat)
    (hcareful : ∀ e ∈ (script.program []).momentsWithin levels (.new ∅), e.Careful)
    (hcareful' : ∀ e ∈ (script.withoutCollections.program []).momentsWithin levels (.new ∅), e.Careful) :
    ((script.program []).runWithin levels (.new ∅)).1 =
      ((script.withoutCollections.program []).runWithin levels (.new ∅)).1 ∧
    ∃ naming : Object → Object → Prop, Relator.LeftUnique naming ∧
      List.Forall₂ (Moment.Corresponds naming)
        (((script.program []).momentsWithin levels (.new ∅)).filter Moment.isOperation)
        ((script.withoutCollections.program []).momentsWithin levels (.new ∅)) := by
  obtain ⟨ρ, hnew⟩ := State.corresponds_new
  have hmachine : (Machine.new ∅ : Machine (Set Value)).Corresponds Twins ρ (.new ∅) :=
    ⟨hnew, fun i => .none⟩
  have hnamed : ρ.Named (fun o o' => ρ o o') State.new.heap :=
    ⟨hnew.heap.biUnique.1, fun o o' ho => (hnew.heap.inUse o o' ho).2, fun o o' ho _ => ho⟩
  have htold : ρ.Tells ∅ [] [] State.new.heap := ⟨nofun, _, hnamed, .nil⟩
  obtain ⟨ρ', ⟨-, naming, hnamed', hmoments⟩, -, hresult⟩ :=
    runsAlike_within levels script [] [] ∅ [] [] ρ (.new ∅) (.new ∅)
      ⟨hmachine, htold, ⟨rfl, fun i _ => .nil⟩, nofun⟩ hcareful hcareful'
  refine ⟨?_, naming, hnamed'.unique, hmoments⟩
  revert hresult
  rcases ((script.program []).runWithin levels (.new ∅)).1 with e | k <;>
    rcases ((script.withoutCollections.program []).runWithin levels (.new ∅)).1 with e' | k' <;>
    intro hresult <;> cases hresult
  · rfl
  · next heq => exact congrArg Except.ok heq

/-- A script that makes a table and loses it, so that a collection releases it and the next table gets
its handle. -/
def reuse : Script :=
  .ask (.newTable 0) trivial [] fun _ =>
    .collect <| .ask (.newTable 0) trivial [] fun _ =>
      .ask (.push .nil) trivial [.result 1] fun _ => .done 1

/-- The second table of `reuse` has the handle of the first one, but not if nothing is collected. -/
theorem reuse_collections_invisible :
    (∀ e ∈ (reuse.program []).momentsWithin 1 (.new ∅), e.Careful) ∧
    (∀ e ∈ (reuse.withoutCollections.program []).momentsWithin 1 (.new ∅), e.Careful) ∧
    ((reuse.program []).runWithin 1 (.new ∅)).1 =
      ((reuse.withoutCollections.program []).runWithin 1 (.new ∅)).1 ∧
    ∃ naming : Object → Object → Prop, Relator.LeftUnique naming ∧
      List.Forall₂ (Moment.Corresponds naming)
        (((reuse.program []).momentsWithin 1 (.new ∅)).filter Moment.isOperation)
        ((reuse.withoutCollections.program []).momentsWithin 1 (.new ∅)) := by
  have hcareful : ∀ e ∈ (reuse.program []).momentsWithin 1 (.new ∅), e.Careful := by
    have hfirst := State.hasAtMost_new.newTable 0
    have horderly := (State.sound_new.heap.newTable 0).1.sound.orderly
    have hcollected :
        (State.collect { State.new with heap := (State.new.heap.newTable 0).2 }).heap.HasAtMost 5 :=
      State.hasAtMost_collect horderly.wellFormed horderly.unmarked hfirst
    simp only [reuse, program, HostProgram.momentsWithin, HostProgram.moments_ask,
      HostProgram.moments_fetch_update, HostProgram.moments_update, List.forall_mem_cons]
    refine ⟨hfirst.fits (by decide), ⟨?_, fun i _ => ?_⟩, (hcollected.newTable 0).fits (by decide),
      (State.hasAtMost_push _ (hcollected.newTable 0)).fits (by decide), nofun⟩
    · rintro v (⟨i, hi, hv⟩ | ⟨⟨⟩⟩)
      -- the result that is lost is not used any more
      obtain ⟨-, rfl⟩ : Nonempty (Except RuntimeError Answer) ∧ 1 = i := by
        simpa [mentions, sourced] using hi
      cases hv
    · change State.Rooted _ (Slots.empty.get i)
      rw [Slots.get_empty]
      exact nofun
  have hcareful' : ∀ e ∈ (reuse.withoutCollections.program []).momentsWithin 1 (.new ∅), e.Careful := by
    have hfirst := State.hasAtMost_new.newTable 0
    simp only [reuse, withoutCollections, program, HostProgram.momentsWithin, HostProgram.moments_ask,
      List.forall_mem_cons]
    exact ⟨hfirst.fits (by decide), (hfirst.newTable 0).fits (by decide),
      (State.hasAtMost_push _ (hfirst.newTable 0)).fits (by decide), nofun⟩
  exact ⟨hcareful, hcareful', collections_invisible reuse 1 hcareful hcareful'⟩

end Script

end ScriptCore
