import ScriptCore.Proofs.Addresses
import ScriptCore.Proofs.FastPathOverlay

set_option relaxedAutoImplicit false
set_option autoImplicit false

/-!
# Words and call sites tell the same calls

A compiled unit holds its calls twice: as a list of call sites, and as words. Both list the calls
of the program, each once, in the order in which a call stands behind the calls in its callee and
in its arguments. The words can be read without the list: how each call is emitted is said by the
words alone.

## Main definitions

* `ScriptCore.Spells` — words stand for calls that are emitted in given ways.
* `ScriptCore.readLowerings` — reads words.
* `ScriptCore.CompiledUnit.Lists` — a unit holds the calls of a program, by address.

## Main results

* `ScriptCore.readLowerings_eq_some_iff` — the reader finds what words stand for.
* `ScriptCore.Compiler.compileProgram_lists` — a compiled unit holds the calls of its program.
-/

namespace ScriptCore

/-! ## Reading words -/

/-- **Words that stand for calls.** A call that tries a fast path has two words, the number of the
function in the first of them. Any other call has one word. A word that returns nothing stands at
the end. -/
inductive Spells : List UInt32 → List Lowering → Prop
  | finish {w : UInt32} (hw : Instruction.decode w = ⟨OpCode.ret.code, 0, 1, 0⟩) : Spells [w] []
  | generic {w : UInt32} {ws : List UInt32} {ls : List Lowering}
    (hw : (Instruction.decode w).op = OpCode.call.code) (h : Spells ws ls) :
    Spells (w :: ws) (.generic :: ls)
  | fast {w w' : UInt32} {ws : List UInt32} {ls : List Lowering} {f : FastFunction}
    (hf : f ∈ FastFunction.all) (hw : Instruction.decode w = ⟨OpCode.fastCall.code, f.id, 0, 0⟩)
    (hw' : (Instruction.decode w').op = OpCode.call.code) (h : Spells ws ls) :
    Spells (w :: w' :: ws) (.fast f :: ls)

/-- The function whose fast path an instruction tries. -/
def Instruction.fast? (i : Instruction) : Option FastFunction :=
  (FastFunction.ofId? i.a).filter fun f => i = ⟨OpCode.fastCall.code, f.id, 0, 0⟩

/-- How the calls are emitted that some words stand for. -/
def readLowerings : List UInt32 → Option (List Lowering)
  | [] => none
  | [w] => if Instruction.decode w = ⟨OpCode.ret.code, 0, 1, 0⟩ then some [] else none
  | w :: w' :: ws =>
    if isCall w then (readLowerings (w' :: ws)).map (.generic :: ·)
    else
      match (Instruction.decode w).fast? with
      | some f => if isCall w' then (readLowerings ws).map (.fast f :: ·) else none
      | none => none

/-- The numbers of the functions differ. -/
lemma FastFunction.ofId?_id : ∀ f ∈ all, ofId? f.id = some f := by decide +kernel

lemma FastFunction.mem_all_of_ofId? {id : UInt8} {f : FastFunction} (h : ofId? id = some f) :
    f ∈ all :=
  List.mem_of_find?_eq_some h

lemma Instruction.fast?_eq_some_iff {i : Instruction} {f : FastFunction} :
    i.fast? = some f ↔ f ∈ FastFunction.all ∧ i = ⟨OpCode.fastCall.code, f.id, 0, 0⟩ := by
  rw [fast?, Option.filter_eq_some_iff, decide_eq_true_eq]
  constructor
  · rintro ⟨hf, hi⟩
    exact ⟨FastFunction.mem_all_of_ofId? hf, hi⟩
  · rintro ⟨hf, hi⟩
    refine ⟨?_, hi⟩
    rw [hi]
    exact FastFunction.ofId?_id f hf

/-- An ordinary call in front. -/
lemma spells_cons_iff {w : UInt32} {ws : List UInt32} {ls : List Lowering} (hw : isCall w) :
    Spells (w :: ws) ls ↔ ∃ ls', Spells ws ls' ∧ .generic :: ls' = ls := by
  have hop : (Instruction.decode w).op = OpCode.call.code := of_decide_eq_true hw
  constructor
  · intro h
    cases h with
    | finish hw' => rw [hw'] at hop; cases hop
    | generic _ h => exact ⟨_, h, rfl⟩
    | fast _ hw' _ _ => rw [hw'] at hop; cases hop
  · rintro ⟨ls', h, rfl⟩
    exact .generic hop h

/-- The word of a fast path in front. -/
lemma spells_cons_cons_iff {w w' : UInt32} {ws : List UInt32} {ls : List Lowering}
    (hw : ¬isCall w) :
    Spells (w :: w' :: ws) ls ↔ ∃ f, (Instruction.decode w).fast? = some f ∧ isCall w' ∧
      ∃ ls', Spells ws ls' ∧ .fast f :: ls' = ls := by
  constructor
  · intro h
    cases h with
    | generic hop _ => exact absurd (decide_eq_true hop) hw
    | fast hf hw hw' h =>
      exact ⟨_, Instruction.fast?_eq_some_iff.2 ⟨hf, hw⟩, decide_eq_true hw', _, h, rfl⟩
  · rintro ⟨f, hf, hw', ls', h, rfl⟩
    obtain ⟨hf, hw⟩ := Instruction.fast?_eq_some_iff.1 hf
    exact .fast hf hw (of_decide_eq_true hw') h

/-- **The reader finds what words stand for**, and nothing else.

**Proof sketch.** Induction along the reader. No word both calls and does something else, and the
number in the word of a fast path is that of one function alone. -/
theorem readLowerings_eq_some_iff {ws : List UInt32} {ls : List Lowering} :
    readLowerings ws = some ls ↔ Spells ws ls := by
  fun_induction readLowerings ws generalizing ls with
  | case1 => exact ⟨nofun, nofun⟩
  | case2 w hw =>
    rw [Option.some.injEq]
    constructor
    · rintro rfl
      exact .finish hw
    · intro h
      cases h with
      | finish => rfl
      | generic _ h => cases h
  | case3 w hw =>
    refine ⟨nofun, fun h => ?_⟩
    cases h with
    | finish hw' => exact absurd hw' hw
    | generic _ h => cases h
  | case4 w w' ws hw ih => simp only [spells_cons_iff hw, Option.map_eq_some_iff, ih]
  | case5 w w' ws hw f hf hw' ih =>
    simp only [spells_cons_cons_iff hw, hf, hw', Option.map_eq_some_iff, ih, Option.some.injEq,
      exists_eq_left', true_and]
  | case6 w w' ws hw f hf hw' =>
    simp only [spells_cons_cons_iff hw, hw', false_and, and_false, exists_false, reduceCtorEq]
  | case7 w w' ws hw hf =>
    simp [spells_cons_cons_iff hw, hf]

/-! ## The words of calls -/

/-- The functions found under names are in the table. -/
lemma Builtin.mem_all_of_function? {b : Builtin} {o : CompileOptions} {f : FastFunction}
    (h : b.function? o = some f) : f ∈ FastFunction.all := by
  unfold function? at h
  split_ifs at h
  · rw [← Option.some.inj h]
    decide +kernel
  · exact List.mem_of_find?_eq_some h
  · exact List.mem_of_find?_eq_some h

lemma Compiler.mem_all_of_loweringFor {c : Compiler} {b : Builtin} {isMethod : Bool}
    {f : FastFunction} (h : c.loweringFor b isMethod = .fast f) : f ∈ FastFunction.all := by
  unfold loweringFor at h
  split_ifs at h
  split at h
  · next hf =>
    rw [← Lowering.fast.inj h]
    exact Builtin.mem_all_of_function? hf
  · cases h

/-- The words of calls stand for the ways the calls are emitted. -/
lemma PlacedCall.spells_words (facts : Facts) (o : CompileOptions) (ks : List PlacedCall) :
    Spells (ks.flatMap (·.words facts o) ++ [returnWord]) (ks.map (·.lowering facts o)) := by
  induction ks with
  | nil => exact .finish (Instruction.decode_encode _)
  | cons k ks ih =>
    have hcall : (Instruction.decode k.callWord).op = OpCode.call.code := by
      rw [callWord, Instruction.decode_encode]
    rw [List.flatMap_cons, List.append_assoc, List.map_cons, words]
    rcases hlow : k.lowering facts o with f | _
    · exact .fast (Compiler.mem_all_of_loweringFor hlow) (Instruction.decode_encode _) hcall ih
    · exact .generic hcall ih

/-! ## Compiled units -/

/-- The calls of a program with their addresses, each behind the calls in its parts. -/
def Program.addressedCalls (p : Program) : List (List ℕ × Call) :=
  (addressing.postorder [] (.block p.body)).filterMap fun x => x.2.call?.map (x.1, ·)

namespace Program

variable (p : Program)

lemma mem_addressedCalls {a : List ℕ} {k : Call} :
    (a, k) ∈ p.addressedCalls ↔ ∃ n, (Node.block p.body).at? a = some n ∧ n.call? = some k := by
  rw [addressedCalls, List.mem_filterMap]
  constructor
  · rintro ⟨⟨b, n⟩, hn, hk⟩
    obtain ⟨k', hk', heq⟩ := Option.map_eq_some_iff.1 hk
    obtain ⟨rfl, rfl⟩ := Prod.mk.inj heq
    obtain ⟨q, rfl, hq⟩ := mem_postorder_addressing.1 hn
    exact ⟨n, hq, hk'⟩
  · rintro ⟨n, hn, hk⟩
    exact ⟨(a, n), mem_postorder_addressing.2 ⟨a, rfl, hn⟩, by rw [hk]; rfl⟩

lemma pairwise_before_addressedCalls :
    p.addressedCalls.Pairwise fun x y => Before x.1 y.1 := by
  refine List.pairwise_filterMap.2 ((pairwise_before_postorder [] _).imp ?_)
  intro x y hxy x' hx y' hy
  obtain ⟨k, -, rfl⟩ := Option.map_eq_some_iff.1 hx
  obtain ⟨l, -, rfl⟩ := Option.map_eq_some_iff.1 hy
  exact hxy

/-- The calls are emitted in the order of their addresses. -/
lemma map_snd_addressedCalls : p.addressedCalls.map Prod.snd = p.emitted.map PlacedCall.call := by
  rw [map_call_emitted]
  exact addressing.map_filterMap_postorder Node.call? Prod.mk (fun _ _ => rfl) _ _

end Program

/-- **A unit holds the calls of a program twice**, as call sites and as words. The calls are given
with their addresses. -/
structure CompiledUnit.Lists (u : CompiledUnit) (p : Program) (o : CompileOptions)
    (calls : List (List ℕ × Call)) : Prop where
  /-- The calls are those of the tree: a call stands in the list with its address, and nothing
  else does. -/
  mem_iff : ∀ a k, (a, k) ∈ calls ↔ ∃ n, (Node.block p.body).at? a = some n ∧ n.call? = some k
  /-- No address occurs twice. -/
  nodup : (calls.map Prod.fst).Nodup
  /-- A call stands behind those inside of it, and behind those to the left of it. -/
  ordered : calls.Pairwise fun x y => Before x.1 y.1
  /-- The call sites are those of the calls, one for each in the same order. -/
  sites : List.Forall₂ (fun x site => site.line = x.2.pos.line ∧
      site.builtin = (Facts.ofProgram o.mutableGlobals p).resolve x.2.callee ∧
      site.lowering = (Compiler.new o).loweringFor site.builtin x.2.isMethod)
    calls u.callSites.toList
  /-- The words stand for calls emitted as the sites say. -/
  spells : Spells u.bytecode.toList (u.callSites.toList.map (·.lowering))
  /-- They stand for nothing else. -/
  unique : ∀ ls, Spells u.bytecode.toList ls → ls = u.callSites.toList.map (·.lowering)
  /-- How the calls are emitted can be read off the words. -/
  read : readLowerings u.bytecode.toList = some (u.callSites.toList.map (·.lowering))

namespace Compiler

/-- The unit of a program holds its calls. -/
lemma unit_lists (p : Program) (o : CompileOptions) : (p.unit o).Lists p o p.addressedCalls := by
  set facts := Facts.ofProgram o.mutableGlobals p with hfacts
  have hlowerings : (p.unit o).callSites.toList.map (·.lowering) =
      p.emitted.map (·.lowering facts o) := by
    simp [Program.unit, ← hfacts, PlacedCall.site, Function.comp_def]
  have hspells : Spells (p.unit o).bytecode.toList ((p.unit o).callSites.toList.map (·.lowering)) :=
    hlowerings ▸ PlacedCall.spells_words facts o p.emitted
  have hread := readLowerings_eq_some_iff.2 hspells
  refine ⟨fun a k => p.mem_addressedCalls, ?_, p.pairwise_before_addressedCalls, ?_, hspells, ?_,
    hread⟩
  · refine List.pairwise_map.2 (p.pairwise_before_addressedCalls.imp fun {x y} h heq => ?_)
    exact Before.irrefl y.1 (heq ▸ h)
  · have hcalls : List.Forall₂ (fun k site => site.line = k.pos.line ∧
        site.builtin = facts.resolve k.callee ∧
        site.lowering = (Compiler.new o).loweringFor site.builtin k.isMethod)
        (p.addressedCalls.map Prod.snd) (p.unit o).callSites.toList := by
      rw [p.map_snd_addressedCalls, Program.unit, List.forall₂_map_left_iff]
      show List.Forall₂ _ _ (p.emitted.map _)
      rw [List.forall₂_map_right_iff]
      exact List.forall₂_same.2 fun k _ => ⟨rfl, rfl, rfl⟩
    exact List.forall₂_map_left_iff.1 hcalls
  · intro ls hls
    exact Option.some.inj ((readLowerings_eq_some_iff.2 hls).symm.trans hread)

/-- **Words and call sites tell the same calls.** If a program is compiled, the unit holds its calls
as call sites and as words, and the words are read in one way only.

**Proof sketch.** The unit is made of the placed calls in the order they are emitted. That is the
order of a walk behind the parts, and the same walk with addresses meets each address once. The
words of a call start with its code or with that of a fast path, whose number is that of one
function, so the reader finds how the calls are emitted. -/
theorem compileProgram_lists {p : Program} {c : Compiler} {u : CompiledUnit}
    (hu : ((compileProgram p).outcome c).1 = .ok u) : ∃ calls, u.Lists p c.options calls := by
  have hunit : u = p.unit c.options := by
    rw [(compileProgram_outcome p c).1] at hu
    split at hu
    · cases hu
    · exact (Except.ok.inj hu).symm
  exact ⟨p.addressedCalls, hunit ▸ unit_lists p c.options⟩

/-- The program of `f(math.abs(f()))` and `while f() do math.abs(x) end`. -/
def nested : Program where
  body := .mk ⟨1, 1⟩ [
    .expr (.call (.name (.globalVar "f") ⟨1, 1⟩) [
      .call (.member (.name (.globalVar "math") ⟨1, 3⟩) "abs" ⟨1, 7⟩) [
        .call (.name (.globalVar "f") ⟨1, 12⟩) [] false ⟨1, 13⟩] false ⟨1, 11⟩] false ⟨1, 2⟩),
    .whileLoop (.call (.name (.globalVar "f") ⟨2, 7⟩) [] false ⟨2, 8⟩)
      (.mk ⟨2, 10⟩ [
        .expr (.call (.member (.name (.globalVar "math") ⟨3, 1⟩) "abs" ⟨3, 5⟩)
          [.name (.globalVar "x") ⟨3, 10⟩] false ⟨3, 9⟩)]) ⟨2, 1⟩]
  locals := #[]

/-- The unit of `nested`: the innermost call comes first. -/
def nestedUnit : CompiledUnit where
  bytecode := #[922878208, 956432384, 922812416, 922746881, 922747138, 956432384, 922747393,
    905969920]
  callSites := #[
    ⟨1, ⟨none, "f"⟩, .generic⟩,
    ⟨1, ⟨some "math", "abs"⟩, .fast ⟨2, "MathAbs", some "math", "abs"⟩⟩,
    ⟨1, ⟨none, "f"⟩, .generic⟩,
    ⟨2, ⟨none, "f"⟩, .generic⟩,
    ⟨3, ⟨some "math", "abs"⟩, .fast ⟨2, "MathAbs", some "math", "abs"⟩⟩]

theorem compileProgram_lists_nested :
    ((compileProgram nested).outcome (new {})).1 = .ok nestedUnit ∧
      ∃ calls, nestedUnit.Lists nested {} calls := by
  have hcompile : ((compileProgram nested).outcome (new {})).1 = .ok nestedUnit := by cbv
  exact ⟨hcompile, compileProgram_lists hcompile⟩

end Compiler

end ScriptCore
