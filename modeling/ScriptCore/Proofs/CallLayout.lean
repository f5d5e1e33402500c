import ScriptCore.Proofs.AddressedWalks
import ScriptCore.Proofs.FastPathOverlay

set_option relaxedAutoImplicit false
set_option autoImplicit false

/-!
# The words of each call

The words of a compiled program belong to its calls. This file says which words are those of the
call at a given address, so that statements about words can be told by the position of a call in
its program.

## Main definitions

* `ScriptCore.Program.callAt?` — the call at an address.
* `ScriptCore.Program.located` — the placed calls of a program with their addresses.
* `ScriptCore.EmittedCall` — a call with its address and its words.
* `ScriptCore.CompiledUnit.MadeOf` — the words of a unit are those of some emitted calls.

## Main results

* `ScriptCore.Program.mem_located` — a call is placed as its address says.
* `ScriptCore.Program.unit_madeOf` — the words of a program are those of its calls.
-/

namespace ScriptCore

/-- A call with its address and its words: those that try a fast path, and that of the ordinary
call. -/
structure EmittedCall where
  address : List ℕ
  call : Call
  fast : List UInt32
  word : UInt32

namespace EmittedCall

/-- All words of a call. -/
def words (e : EmittedCall) : List UInt32 := e.fast ++ [e.word]

/-- The instruction that is the ordinary call. -/
def instruction (e : EmittedCall) : Instruction := Instruction.decode e.word

end EmittedCall

namespace Program

/-- The call at an address. -/
def callAt? (p : Program) (a : List ℕ) : Option Call :=
  ((Node.block p.body).at? a).bind Node.call?

/-- The placed calls of a program with their addresses, each behind the calls in its parts. -/
def located (p : Program) : List (List ℕ × PlacedCall) :=
  (placement.addressed.postorder ([], .start) (.block p.body)).filterMap fun x =>
    x.2.call?.map fun k => (x.1.1, ⟨x.1.2, k⟩)

/-- The placed calls of a program with their addresses, each before the calls in its parts. -/
def locatedOuterFirst (p : Program) : List (List ℕ × PlacedCall) :=
  (placement.addressed.preorder ([], .start) (.block p.body)).filterMap fun x =>
    x.2.call?.map fun k => (x.1.1, ⟨x.1.2, k⟩)

end Program

/-- **The words of a unit are those of the calls of a program**, which are given with their
addresses in the order in which they are emitted. -/
structure CompiledUnit.MadeOf (u : CompiledUnit) (p : Program) (es : List EmittedCall) : Prop where
  /-- Behind the words of the calls there is the one that ends the unit. -/
  words : u.bytecode.toList = es.flatMap (·.words) ++ [returnWord]
  /-- Each call has the word of an ordinary call. -/
  word : ∀ e ∈ es, isCall e.word
  /-- In front of it there is at most one word, which tries a fast path. -/
  fast : ∀ e ∈ es, e.fast.length ≤ 1 ∧ ∀ w ∈ e.fast, isFastCall w
  /-- So the words of ordinary calls are those of the calls. -/
  calls : u.bytecode.toList.filter isCall = es.map (·.word)
  /-- The calls are those of the program. -/
  mem_iff : ∀ a k, (∃ e ∈ es, e.address = a ∧ e.call = k) ↔ p.callAt? a = some k
  /-- A call stands behind those inside of it, and behind those to the left of it. -/
  ordered : es.Pairwise fun e e' => Before e.address e'.address

namespace Program

variable (p : Program)

/-- What makes a placed call of a node. -/
private lemma placed_eq_some_iff {x : (List ℕ × Place) × Node Reference LocalId}
    {a : List ℕ} {k : PlacedCall} :
    x.2.call?.map (fun c => ((x.1.1, ⟨x.1.2, c⟩) : List ℕ × PlacedCall)) = some (a, k) ↔
      ∃ n, n.call? = some k.call ∧ ((a, k.place), n) = x := by
  obtain ⟨⟨b, q⟩, n⟩ := x
  rw [Option.map_eq_some_iff]
  constructor
  · rintro ⟨c, hc, heq⟩
    obtain ⟨rfl, rfl⟩ := Prod.mk.inj heq
    exact ⟨n, hc, rfl⟩
  · rintro ⟨m, hm, heq⟩
    obtain ⟨haq, rfl⟩ := Prod.mk.inj heq
    obtain ⟨rfl, rfl⟩ := Prod.mk.inj haq
    exact ⟨k.call, hm, rfl⟩

/-- **A call is placed as its address says.** -/
theorem mem_located {a : List ℕ} {k : PlacedCall} :
    (a, k) ∈ p.located ↔ ∃ n, n.call? = some k.call ∧
      placement.at? a (.start, .block p.body) = some (k.place, n) := by
  rw [located, List.mem_filterMap]
  simp only [placed_eq_some_iff]
  constructor
  · rintro ⟨_, hx, n, hn, rfl⟩
    obtain ⟨s, rfl, hs⟩ := placement.mem_postorder_addressed.1 hx
    exact ⟨n, hn, hs⟩
  · rintro ⟨n, hn, hs⟩
    exact ⟨_, placement.mem_postorder_addressed.2 ⟨a, rfl, hs⟩, n, hn, rfl⟩

lemma mem_locatedOuterFirst {x : List ℕ × PlacedCall} :
    x ∈ p.locatedOuterFirst ↔ x ∈ p.located :=
  ((placement.addressed.postorder_perm_preorder _ _).filterMap _).mem_iff.symm

/-- The call at an address has a place. -/
lemma callAt?_eq_some_iff {a : List ℕ} {k : Call} :
    p.callAt? a = some k ↔ ∃ q, (a, ⟨q, k⟩) ∈ p.located := by
  rw [callAt?, Option.bind_eq_some_iff]
  constructor
  · rintro ⟨n, hn, hk⟩
    obtain ⟨q, hq⟩ := placement.exists_at? (x := (.start, .block p.body)) hn
    exact ⟨q, p.mem_located.2 ⟨n, hk, hq⟩⟩
  · rintro ⟨q, h⟩
    obtain ⟨n, hk, hq⟩ := p.mem_located.1 h
    exact ⟨n, placement.node_of_at? hq, hk⟩

lemma map_snd_located : p.located.map Prod.snd = p.emitted := by
  rw [located, emitted, placedCalls,
    ← placement.addressed_covers.map_postorder ([], Place.start) (Node.block p.body),
    List.map_filterMap, List.filterMap_map]
  refine List.filterMap_congr fun x _ => ?_
  rw [Option.map_map]
  rfl

lemma map_snd_locatedOuterFirst : p.locatedOuterFirst.map Prod.snd = p.announced := by
  rw [locatedOuterFirst, announced, placedCalls,
    ← placement.addressed_covers.map_preorder ([], Place.start) (Node.block p.body),
    List.map_filterMap, List.filterMap_map]
  refine List.filterMap_congr fun x _ => ?_
  rw [Option.map_map]
  rfl

lemma pairwise_before_located : p.located.Pairwise fun x y => Before x.1 y.1 := by
  refine List.pairwise_filterMap.2 ((placement.pairwise_before_postorder [] _ _).imp ?_)
  intro x y hxy x' hx y' hy
  obtain ⟨k, -, rfl⟩ := Option.map_eq_some_iff.1 hx
  obtain ⟨l, -, rfl⟩ := Option.map_eq_some_iff.1 hy
  exact hxy

lemma pairwise_lt_locatedOuterFirst : p.locatedOuterFirst.Pairwise fun x y => x.1 < y.1 := by
  refine List.pairwise_filterMap.2 ((placement.pairwise_lt_preorder [] _ _).imp ?_)
  intro x y hxy x' hx y' hy
  obtain ⟨k, -, rfl⟩ := Option.map_eq_some_iff.1 hx
  obtain ⟨l, -, rfl⟩ := Option.map_eq_some_iff.1 hy
  exact hxy

/-- How the placed call at an address is emitted. -/
def emission (o : CompileOptions) (x : List ℕ × PlacedCall) : EmittedCall where
  address := x.1
  call := x.2.call
  fast := (x.2.lowering (.ofProgram o.mutableGlobals p) o).fast?.toList.map FastFunction.word
  word := x.2.callWord

/-- The calls of a program as they are emitted. -/
def emissions (o : CompileOptions) : List EmittedCall := p.located.map (p.emission o)

lemma flatMap_words_emissions (o : CompileOptions) :
    (p.emissions o).flatMap (·.words) =
      p.emitted.flatMap (·.words (.ofProgram o.mutableGlobals p) o) := by
  rw [← p.map_snd_located, emissions, List.flatMap_map, List.flatMap_map]
  rfl

/-- **The words of a program are those of its calls.** -/
theorem unit_madeOf (o : CompileOptions) : (p.unit o).MadeOf p (p.emissions o) := by
  have hwords : (p.unit o).bytecode.toList =
      (p.emissions o).flatMap (·.words) ++ [returnWord] := by
    rw [flatMap_words_emissions]
    rfl
  have hword : ∀ e ∈ p.emissions o, isCall e.word := by
    intro e he
    obtain ⟨x, -, rfl⟩ := List.mem_map.1 he
    exact isCall_callWord x.2
  have hfast : ∀ e ∈ p.emissions o, e.fast.length ≤ 1 ∧ ∀ w ∈ e.fast, isFastCall w := by
    intro e he
    obtain ⟨x, -, rfl⟩ := List.mem_map.1 he
    rw [emission]
    cases x.2.lowering (.ofProgram o.mutableGlobals p) o <;> simp [Lowering.fast?]
  refine ⟨hwords, hword, hfast, ?_, ?_, List.pairwise_map.2 p.pairwise_before_located⟩
  · have hone : ∀ k : PlacedCall, (k.words (.ofProgram o.mutableGlobals p) o).filter isCall =
        [k.callWord] := by
      intro k
      rw [PlacedCall.words]
      cases k.lowering (.ofProgram o.mutableGlobals p) o <;> simp [Lowering.fast?]
    rw [hwords, flatMap_words_emissions, List.filter_append, List.filter_flatMap]
    simp only [hone, emissions, ← p.map_snd_located, List.map_map, List.flatMap_map]
    simp [emission, Function.comp_def, List.map_eq_flatMap]
  · intro a k
    rw [callAt?_eq_some_iff]
    constructor
    · rintro ⟨e, he, rfl, rfl⟩
      obtain ⟨⟨a, q, k⟩, hx, rfl⟩ := List.mem_map.1 he
      exact ⟨q, hx⟩
    · rintro ⟨q, hq⟩
      exact ⟨p.emission o (a, ⟨q, k⟩), List.mem_map_of_mem hq, rfl, rfl⟩

end Program

namespace Compiler

/-- The unit of a program that is compiled is told by its calls, none of which overflows. -/
lemma unit_of_compileProgram {p : Program} {c : Compiler} {u : CompiledUnit}
    (hu : ((compileProgram p).outcome c).1 = .ok u) :
    u = p.unit c.options ∧ ∀ x ∈ p.located, x.2.overflows = false := by
  rw [(compileProgram_outcome p c).1, Program.overflowLine?] at hu
  rcases hfind : p.announced.find? (·.overflows) with _ | k
  · rw [hfind] at hu
    refine ⟨(Except.ok.inj hu).symm, fun x hx => ?_⟩
    have hmem : x.2 ∈ p.announced := by
      rw [← p.map_snd_locatedOuterFirst]
      exact List.mem_map_of_mem (p.mem_locatedOuterFirst.2 hx)
    simpa using List.find?_eq_none.1 hfind x.2 hmem
  · rw [hfind] at hu
    cases hu

end Compiler

end ScriptCore
