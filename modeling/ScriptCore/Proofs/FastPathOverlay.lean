import ScriptCore.Proofs.Emission

set_option relaxedAutoImplicit false
set_option autoImplicit false

/-!
# Fast paths are an overlay

Whether calls may take fast paths changes nothing about the ordinary code: the same texts are
refused for the same reasons, and of a text that is compiled the bytecode is the ordinary one with
a word in front of some calls.

## Main definitions

* `ScriptCore.CompiledUnit.Overlays` — one unit is another one with fast paths added.
* `ScriptCore.OverlaysResult` — the same of results of compilations, which may be errors.

## Main results

* `ScriptCore.Program.unit_overlays` — the unit of a program overlays that without fast paths.
* `ScriptCore.Compiler.compile_overlays` — compilations with and without fast paths.
-/

namespace ScriptCore

/-! ## Words of calls -/

/-- Whether a word tries a fast path. -/
def isFastCall (word : UInt32) : Bool := (Instruction.decode word).op = OpCode.fastCall.code

/-- Whether a word is an ordinary call. -/
def isCall (word : UInt32) : Bool := (Instruction.decode word).op = OpCode.call.code

@[simp]
lemma isFastCall_word (f : FastFunction) : isFastCall f.word = true := by
  simp [isFastCall, FastFunction.word, Instruction.decode_encode]

@[simp]
lemma isCall_word (f : FastFunction) : isCall f.word = false := by
  simp [isCall, FastFunction.word, Instruction.decode_encode, OpCode.code]

@[simp]
lemma isFastCall_callWord (k : PlacedCall) : isFastCall k.callWord = false := by
  simp [isFastCall, PlacedCall.callWord, Instruction.decode_encode, OpCode.code]

@[simp]
lemma isCall_callWord (k : PlacedCall) : isCall k.callWord = true := by
  simp [isCall, PlacedCall.callWord, Instruction.decode_encode]

@[simp]
lemma isFastCall_returnWord : isFastCall returnWord = false := by
  simp [isFastCall, returnWord, Instruction.decode_encode, OpCode.code]

@[simp]
lemma isCall_returnWord : isCall returnWord = false := by
  simp [isCall, returnWord, Instruction.decode_encode, OpCode.code]

/-! ## Overlays -/

/-- The options with all fast paths off. -/
def CompileOptions.withoutFastCalls (o : CompileOptions) : CompileOptions :=
  { o with optimizationLevel := 0 }

/-- **One unit is another one with fast paths added.** -/
structure CompiledUnit.Overlays (u u₀ : CompiledUnit) : Prop where
  /-- Without the words of fast paths the bytecode is the ordinary one. -/
  words : u.bytecode.toList.filter (fun w => !isFastCall w) = u₀.bytecode.toList
  /-- The calls are the same, apart from how they are emitted. -/
  sites : List.Forall₂ (fun s s₀ : CallSite =>
      s.line = s₀.line ∧ s.builtin = s₀.builtin ∧ s₀.lowering = .generic)
    u.callSites.toList u₀.callSites.toList
  /-- There is one word of an ordinary call for each call. -/
  calls : u.bytecode.toList.countP isCall = u.callSites.size
  /-- The word of a fast path stands right before the word of its call: the call with as many
  calls before it as there are words of calls before the two. -/
  followed : ∀ front word rest, u.bytecode.toList = front ++ word :: rest → isFastCall word →
    ∃ site f callWord rest', u.callSites[front.countP isCall]? = some site ∧
      site.lowering = .fast f ∧ word = f.word ∧ rest = callWord :: rest' ∧ isCall callWord

/-- Two results are the same error, or units of which the first overlays the second. -/
inductive OverlaysResult :
    Except CompileError CompiledUnit → Except CompileError CompiledUnit → Prop
  | error (e : CompileError) : OverlaysResult (.error e) (.error e)
  | ok {u u₀ : CompiledUnit} (h : u.Overlays u₀) : OverlaysResult (.ok u) (.ok u₀)

namespace PlacedCall

variable (facts : Facts) (o : CompileOptions)

/-- At level zero every call is ordinary. -/
lemma lowering_withoutFastCalls (k : PlacedCall) :
    k.lowering facts o.withoutFastCalls = .generic := by
  simp [lowering, Compiler.loweringFor, Compiler.new, CompileOptions.withoutFastCalls,
    CompileOptions.fastCalls]

lemma words_withoutFastCalls (k : PlacedCall) :
    k.words facts o.withoutFastCalls = [k.callWord] := by
  rw [words, lowering_withoutFastCalls]
  rfl

/-- Without the word of its fast path a call is the ordinary one. -/
lemma filter_words (k : PlacedCall) :
    (k.words facts o).filter (fun w => !isFastCall w) = [k.callWord] := by
  rw [words]
  cases k.lowering facts o <;> simp [Lowering.fast?]

/-- Each call has one word of an ordinary call. -/
lemma countP_words (k : PlacedCall) : (k.words facts o).countP isCall = 1 := by
  rw [words]
  cases k.lowering facts o <;> simp [Lowering.fast?]

/-- **The words of a fast path are followed by those of their call.**

**Proof sketch.** Induction on the calls. The first call has either one word, which is no fast
path, or two words, the first of which is followed by the second. A word further on belongs to
the calls behind, where one word of a call less stands before it. -/
lemma followed_of_flatMap_words (tail : List UInt32) (hend : ∀ w ∈ tail, isFastCall w = false)
    (ks : List PlacedCall) : ∀ front word rest,
      ks.flatMap (·.words facts o) ++ tail = front ++ word :: rest → isFastCall word →
      ∃ k f rest', ks[front.countP isCall]? = some k ∧ k.lowering facts o = .fast f ∧
        word = f.word ∧ rest = k.callWord :: rest' := by
  induction ks with
  | nil =>
    intro front word rest heq hword
    have hmem : word ∈ tail := by
      rw [List.flatMap_nil, List.nil_append] at heq
      rw [heq]; simp
    rw [hend word hmem] at hword
    exact absurd hword Bool.false_ne_true
  | cons k ks ih =>
    intro front word rest heq hword
    rw [List.flatMap_cons, List.append_assoc, words] at heq
    -- a word behind those of `k` belongs to the calls behind `k`
    have hbehind : ∀ front', front = (k.words facts o) ++ front' →
        ks.flatMap (·.words facts o) ++ tail = front' ++ word :: rest →
        ∃ k' f rest', (k :: ks)[front.countP isCall]? = some k' ∧
          k'.lowering facts o = .fast f ∧ word = f.word ∧ rest = k'.callWord :: rest' := by
      intro front' hfront heq'
      obtain ⟨k', f, rest', hk', h⟩ := ih front' word rest heq' hword
      refine ⟨k', f, rest', ?_, h⟩
      rw [hfront, List.countP_append, countP_words, Nat.add_comm, List.getElem?_cons_succ]
      exact hk'
    rcases hlow : k.lowering facts o with f | _
    · simp only [hlow, Lowering.fast?, Option.toList_some, List.map_cons, List.map_nil,
        List.nil_append, List.cons_append] at heq
      rcases front with _ | ⟨w₁, _ | ⟨w₂, front⟩⟩
      · obtain ⟨rfl, hrest⟩ := List.cons.inj heq
        exact ⟨k, f, _, rfl, hlow, rfl, hrest.symm⟩
      · obtain ⟨rfl, hrest⟩ := List.cons.inj heq
        obtain ⟨rfl, -⟩ := List.cons.inj hrest
        rw [isFastCall_callWord] at hword
        exact absurd hword Bool.false_ne_true
      · obtain ⟨rfl, hrest⟩ := List.cons.inj heq
        obtain ⟨rfl, hback⟩ := List.cons.inj hrest
        exact hbehind front (by rw [words, hlow]; rfl) hback
    · simp only [hlow, Lowering.fast?, Option.toList_none, List.map_nil, List.nil_append,
        List.cons_append] at heq
      rcases front with _ | ⟨w₁, front⟩
      · obtain ⟨rfl, -⟩ := List.cons.inj heq
        rw [isFastCall_callWord] at hword
        exact absurd hword Bool.false_ne_true
      · obtain ⟨rfl, hrest⟩ := List.cons.inj heq
        exact hbehind front (by rw [words, hlow]; rfl) hrest

end PlacedCall

/-- The unit of a program overlays that without fast paths. -/
theorem Program.unit_overlays (p : Program) (o : CompileOptions) :
    (p.unit o).Overlays (p.unit o.withoutFastCalls) := by
  set facts := Facts.ofProgram o.mutableGlobals p with hfacts
  have hfacts₀ : Facts.ofProgram o.withoutFastCalls.mutableGlobals p = facts := rfl
  constructor
  · simp only [unit, hfacts₀, ← hfacts, List.filter_append, List.filter_flatMap,
      PlacedCall.filter_words, PlacedCall.words_withoutFastCalls]
    simp
  · simp only [unit, hfacts₀, ← hfacts, List.forall₂_map_left_iff, List.forall₂_map_right_iff]
    refine List.forall₂_same.2 fun k _ => ⟨rfl, rfl, ?_⟩
    exact PlacedCall.lowering_withoutFastCalls facts o k
  · simp only [unit, ← hfacts, List.countP_append, List.countP_flatMap, Function.comp_def,
      PlacedCall.countP_words]
    simp
  · intro front word rest heq hword
    obtain ⟨k, f, rest', hk, hlow, hf, hrest⟩ :=
      PlacedCall.followed_of_flatMap_words facts o [returnWord] (by simp) p.emitted front word rest
        (by simpa [unit, ← hfacts] using heq) hword
    refine ⟨k.site facts o, f, k.callWord, rest', ?_, hlow, hf, hrest, isCall_callWord k⟩
    simp [unit, ← hfacts, hk]

/-- **Fast paths are an overlay on the ordinary code.** Whatever two compilers did before, compiling
a text with some options and compiling it with the same options at level zero give the same error,
or units of which the first is the second with fast paths added. -/
theorem Compiler.compile_overlays (source : String) (o : CompileOptions) (c c₀ : Compiler) :
    OverlaysResult ((compile source).outcome { c with options := o }).1
      ((compile source).outcome { c₀ with options := o.withoutFastCalls }).1 := by
  rw [compile_outcome, compile_outcome]
  rcases parseProgram source with e | p
  · exact .error _
  · rcases h : p.overflowLine? with _ | line
    · simp only [h]
      exact .ok (p.unit_overlays o)
    · simp only [h]
      exact .error _

end ScriptCore
