import Mathlib.Data.Set.Card
import ScriptCore.Builtin.Callee

set_option relaxedAutoImplicit false
set_option autoImplicit false

/-!
# Names of the functions with a fast path

A function with a fast path is found under its qualified name, cut at the dot into the library and the member, and
under no other name. A name without a dot is that of a global. Two functions are exceptions: the constructor of
vectors is found only under the name the host gives it, which goes before all others, and `table.unpack` is also found
under the bare name `unpack`.

## Main definitions

* `ScriptCore.Builtin.Names` — the names of a function, read off its qualified name.
* `ScriptCore.CompileOptions.vectorName?` — the name the host gives to the constructor of vectors.

## Main results

* `ScriptCore.FastFunction.find?_eq_some_iff` — the table has one function for a library and a member.
* `ScriptCore.Builtin.function?_eq_some_iff` — the names under which a function is found.
* `ScriptCore.Builtin.function?_exact` — which function a name stands for, for all names and options.
-/

namespace ScriptCore

namespace FastFunction

variable {f : FastFunction} {library : Option String} {member : String}

/-- The libraries with functions that have a fast path. -/
def libraries : List String := ["math", "bit32", "string", "table", "cpr", "json", "base64"]

/-! ## The table -/

/-- No two functions of the table have one library and one member. -/
lemma find?_self : ∀ f ∈ all, f ≠ vector → find? f.library f.member = some f := by decide +kernel

/-- Libraries and members have no dot in them, and no member is empty. -/
lemma undotted_of_mem : ∀ f ∈ all, f.member ≠ "" ∧ '.' ∉ f.member.toList ∧
    ∀ l ∈ f.library, '.' ∉ l.toList ∧ l ∈ libraries := by decide +kernel

/-- No global function is called `unpack`. -/
lemma member_ne_unpack : ∀ f ∈ all, f.library = none → f.member ≠ "unpack" := by decide +kernel

/-- **The table has one function for a library and a member**, the constructor of vectors apart. -/
theorem find?_eq_some_iff :
    find? library member = some f ↔ f ∈ all ∧ f ≠ vector ∧ f.library = library ∧ f.member = member := by
  constructor
  · intro h
    have hmatch := List.find?_some h
    simp only [decide_eq_true_eq] at hmatch
    exact ⟨List.mem_of_find?_eq_some h, hmatch.2.2, hmatch.1, hmatch.2.1⟩
  · rintro ⟨hf, hvector, rfl, rfl⟩
    exact find?_self f hf hvector

/-! ## Qualified names -/

/-- A function of a library has one dot in its name. -/
lemma name_eq_append_iff (hf : f ∈ all) {l m : String} :
    f.name = l ++ "." ++ m ↔ f.library = some l ∧ f.member = m := by
  obtain ⟨-, hmember, hlibrary⟩ := undotted_of_mem f hf
  constructor
  · intro h
    have htext := congrArg String.toList h
    simp only [String.toList_append] at htext
    cases hl : f.library with
    | none =>
      rw [name, hl] at htext
      exact absurd (show '.' ∈ f.member.toList by rw [htext]; simp) hmember
    | some l' =>
      rw [name, hl] at htext
      simp only [String.toList_append, List.append_assoc] at htext
      obtain ⟨hl', -, hm⟩ := (List.append_cons_inj_of_notMem (hlibrary l' hl).1 hmember).1 htext
      exact ⟨congrArg some (String.toList_inj.1 hl'), String.toList_inj.1 hm⟩
  · rintro ⟨hl, rfl⟩
    rw [name, hl]

/-- A global function has no dot in its name, and any other has one. -/
lemma dot_notMem_name_iff (hf : f ∈ all) : '.' ∉ f.name.toList ↔ f.library = none := by
  cases hl : f.library with
  | none =>
    rw [name, hl]
    exact ⟨fun _ => rfl, fun _ => (undotted_of_mem f hf).2.1⟩
  | some l =>
    rw [name, hl]
    simp

lemma name_eq_unpack_iff (hf : f ∈ all) :
    f.name = "table.unpack" ↔ f.library = some "table" ∧ f.member = "unpack" := by
  rw [← name_eq_append_iff hf]
  exact Eq.congr_right (by decide +kernel)

end FastFunction

open FastFunction (vector)

/-- The name that the host gives to the constructor of vectors. -/
def CompileOptions.vectorName? (o : CompileOptions) : Option Builtin :=
  o.vectorCtor.map fun ctor => ⟨o.vectorLib, ctor⟩

namespace Builtin

variable {b : Builtin} {o : CompileOptions} {f : FastFunction}

/-! ## Names -/

/-- **The names of a function**, read off its qualified name: the name itself as that of a global, if it has no dot;
what stands before and behind a dot in it, as a library and its member; and `unpack` for `table.unpack`. -/
inductive Names (f : FastFunction) : Builtin → Prop
  | global : '.' ∉ f.name.toList → Names f ⟨none, f.name⟩
  | member {library member : String} : f.name = library ++ "." ++ member → Names f ⟨some library, member⟩
  | unpack : f.name = "table.unpack" → Names f ⟨none, "unpack"⟩

/-- A function has one name, but `table.unpack` has two. -/
lemma names_iff (hf : f ∈ FastFunction.all) :
    Names f b ↔ b = ⟨f.library, f.member⟩ ∨ f.name = "table.unpack" ∧ b = ⟨none, "unpack"⟩ := by
  constructor
  · rintro (hdot | hname | hname)
    · have hl := (FastFunction.dot_notMem_name_iff hf).1 hdot
      rw [FastFunction.name, hl]
      exact .inl rfl
    · obtain ⟨hl, rfl⟩ := (FastFunction.name_eq_append_iff hf).1 hname
      rw [hl]
      exact .inl rfl
    · exact .inr ⟨hname, rfl⟩
  · rintro (rfl | ⟨hname, rfl⟩)
    · cases hl : f.library with
      | none =>
        have hname : f.name = f.member := by rw [FastFunction.name, hl]
        exact hname ▸ .global ((FastFunction.dot_notMem_name_iff hf).2 hl)
      | some l => exact .member ((FastFunction.name_eq_append_iff hf).2 ⟨hl, rfl⟩)
    · exact .unpack hname

lemma isVectorCtor_iff : b.isVectorCtor o ↔ o.vectorName? = some b := by
  rw [isVectorCtor, CompileOptions.vectorName?]
  cases o.vectorCtor with
  | none => simp
  | some ctor => simp [eq_comm]

/-! ## Functions by their names -/

/-- **The names under which a function is found**, if they are not that of the constructor of vectors. -/
theorem function?_eq_some_iff (hctor : o.vectorName? ≠ some b) :
    b.function? o = some f ↔ f ∈ FastFunction.all ∧ f ≠ vector ∧ Names f b := by
  rw [function?]
  split_ifs with hempty hvector hunpack
  · -- no function has an empty name
    refine ⟨nofun, fun ⟨hf, _, hnames⟩ => ?_⟩
    have hmethod : b.method = "" := by simpa [isEmpty] using hempty
    rcases (names_iff hf).1 hnames with rfl | ⟨-, rfl⟩
    · exact absurd hmethod (FastFunction.undotted_of_mem f hf).1
    · exact absurd hmethod (by decide)
  · exact absurd (isVectorCtor_iff.1 hvector) hctor
  · subst hunpack
    rw [FastFunction.find?_eq_some_iff]
    refine and_congr_right fun hf => and_congr_right fun _ => ?_
    rw [names_iff hf, ← FastFunction.name_eq_unpack_iff hf]
    refine ⟨fun hname => .inr ⟨hname, rfl⟩, ?_⟩
    rintro (heq | ⟨hname, -⟩)
    · obtain ⟨hl, hm⟩ := Builtin.mk.inj heq
      exact absurd hm.symm (FastFunction.member_ne_unpack f hf hl.symm)
    · exact hname
  · rw [FastFunction.find?_eq_some_iff]
    refine and_congr_right fun hf => and_congr_right fun _ => ?_
    rw [names_iff hf, or_iff_left fun h => hunpack h.2]
    constructor
    · rintro ⟨hl, hm⟩
      rw [hl, hm]
    · rintro rfl
      exact ⟨rfl, rfl⟩

/-- Without a constructor of vectors, a function has one name in the options or, if it is `table.unpack`, two. -/
lemma setOf_function?_eq (hctor : o.vectorCtor = none) (hf : f ∈ FastFunction.all) (hvector : f ≠ vector) :
    {b : Builtin | b.function? o = some f} =
      if f.name = "table.unpack" then {⟨f.library, f.member⟩, ⟨none, "unpack"⟩}
      else {⟨f.library, f.member⟩} := by
  have hname (b : Builtin) : o.vectorName? ≠ some b := by
    rw [CompileOptions.vectorName?, hctor]
    nofun
  ext b
  rw [Set.mem_ofPred_eq, function?_eq_some_iff (hname b), names_iff hf]
  split_ifs with hunpack
  · simp [hf, hvector, hunpack]
  · simp [hf, hvector, hunpack]

/-- **Which function a name stands for.** The empty name stands for none, and the name the host gives to the
constructor of vectors stands for that. Any other name stands for a function just if it is one of its names, and never
for the constructor of vectors. So if the host names no constructor, that is found under no name, each other function
under one name, `table.unpack` under two, and neither a part with a dot in it nor an unknown library leads anywhere.

**Proof sketch.** The table has one function for a library and a member, neither of which has a dot in it. Hence a
qualified name can be cut at a dot in one way only, and it is cut into the library and the member of the table. -/
theorem function?_exact (o : CompileOptions) :
    (∀ b : Builtin, b.isEmpty → b.function? o = none) ∧
    (∀ b : Builtin, ¬ b.isEmpty → o.vectorName? = some b → b.function? o = some vector) ∧
    (∀ b : Builtin, ¬ b.isEmpty → o.vectorName? ≠ some b → ∀ f,
      b.function? o = some f ↔ f ∈ FastFunction.all ∧ f ≠ vector ∧ Names f b) ∧
    (o.vectorCtor = none →
      (∀ b : Builtin, b.function? o ≠ some vector) ∧
      (∀ f ∈ FastFunction.all, f ≠ vector →
        {b : Builtin | b.function? o = some f}.encard = if f.name = "table.unpack" then 2 else 1) ∧
      ∀ (b : Builtin) f, b.function? o = some f →
        '.' ∉ b.method.toList ∧ ∀ l ∈ b.object, '.' ∉ l.toList ∧ l ∈ FastFunction.libraries) := by
  refine ⟨fun b hempty => if_pos hempty, fun b hempty hctor => ?_,
    fun b _ hctor f => function?_eq_some_iff hctor, fun hnone => ?_⟩
  · rw [function?, if_neg hempty, if_pos (isVectorCtor_iff.2 hctor)]
  have hname (b : Builtin) : o.vectorName? ≠ some b := by
    rw [CompileOptions.vectorName?, hnone]
    nofun
  refine ⟨fun b h => ((function?_eq_some_iff (hname b)).1 h).2.1 rfl, fun f hf hvector => ?_, fun b f h => ?_⟩
  · rw [setOf_function?_eq hnone hf hvector]
    split_ifs with hunpack
    · refine Set.encard_pair fun heq => ?_
      have hl := ((FastFunction.name_eq_unpack_iff hf).1 hunpack).1
      rw [(Builtin.mk.inj heq).1] at hl
      cases hl
    · exact Set.encard_singleton _
  · obtain ⟨hf, -, hnames⟩ := (function?_eq_some_iff (hname b)).1 h
    rcases (names_iff hf).1 hnames with rfl | ⟨-, rfl⟩
    · exact (FastFunction.undotted_of_mem f hf).2
    · exact ⟨by decide +kernel, nofun⟩

/-- Options of a host whose constructor of vectors has the name of another function. -/
def shadowingOptions : CompileOptions := { vectorCtor := some "type" }

/-- The name goes to the constructor of vectors, and other names stand for what they did. -/
theorem function?_exact_shadowing :
    shadowingOptions.vectorName? = some ⟨none, "type"⟩ ∧
      (⟨none, "type"⟩ : Builtin).function? shadowingOptions = some vector ∧
      ((⟨some "math", "type"⟩ : Builtin).function? shadowingOptions =
        some ⟨100, "MathType", some "math", "type"⟩) ∧
      (⟨some "math", ""⟩ : Builtin).function? shadowingOptions = none ∧
      {b : Builtin | b.function? {} = some ⟨53, "TableUnpack", some "table", "unpack"⟩}.encard = 2 := by
  refine ⟨rfl, (function?_exact shadowingOptions).2.1 ⟨none, "type"⟩ (by decide) rfl,
    ((function?_exact shadowingOptions).2.2.1 ⟨some "math", "type"⟩ (by decide) (by decide) _).2
      ⟨by decide +kernel, by decide, .member rfl⟩, (function?_exact shadowingOptions).1 ⟨some "math", ""⟩ rfl, ?_⟩
  exact ((function?_exact {}).2.2.2 rfl).2.1 ⟨53, "TableUnpack", some "table", "unpack"⟩ (by decide +kernel)
    (by decide)

end Builtin

end ScriptCore
