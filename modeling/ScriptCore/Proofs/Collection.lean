import ScriptCore.Machine.State
import ScriptCore.Proofs.Marking

set_option relaxedAutoImplicit false
set_option autoImplicit false

/-!
# Collection frees exactly what cannot be reached

A collection marks what can be reached from the roots of a machine and releases the other entries
of the heap. Whichever order the marking takes, it ends, and the state behind the collection is the
same: the entries that could not be reached are free, and those that could are as they were.

## Main definitions

* `ScriptCore.State.IsRoot`, `ScriptCore.State.Reaches` — roots and reachable objects of a machine.
* `ScriptCore.Arena.WellFormed`, `ScriptCore.Arena.Releases` — free indices, before and behind.
* `ScriptCore.State.Collected` — what a collection does to a state.

## Main results

* `ScriptCore.Arena.get?_sweep`, `ScriptCore.Arena.releases_sweep` — releasing in one arena.
* `ScriptCore.State.collect_exact` — collections, with the marking in any order.
-/

namespace ScriptCore

/-! ## Releasing in one arena -/

namespace Arena

variable {α : Type}

/-- Free indices that are indices, each listed once. -/
structure WellFormed (a : Arena α) : Prop where
  nodup : a.free.Nodup
  lt_size : ∀ i ∈ a.free, i < a.items.size

/-- **What releasing does to the free indices**: released ones come in front of those free before,
and none is listed twice. -/
structure Releases (a b : Arena α) : Prop where
  size : b.items.size = a.items.size
  free : ∃ released, b.free = released ++ a.free
  wellFormed : b.WellFormed

variable (a : Arena α) (marked : Nat → Bool) (blank : α)

lemma isFree_iff {i : Nat} : a.isFree i = true ↔ i ∈ a.free := by
  rw [isFree, List.contains_iff_mem]

/-- The indices that a sweep releases. -/
lemma mem_unmarked_iff {i : Nat} :
    i ∈ a.unmarked marked ↔ i < a.items.size ∧ marked i = false ∧ a.isFree i = false := by
  simp [unmarked]

lemma isFree_sweep_iff {i : Nat} :
    (a.sweep marked blank).isFree i = true ↔ i ∈ a.unmarked marked ∨ a.isFree i = true := by
  rw [isFree_iff, isFree_iff, sweep, List.mem_append, List.mem_reverse]

lemma getElem?_foldl_set (is : List Nat) (i : Nat) :
    ∀ items : Array α, (is.foldl (fun items i => items.setIfInBounds i blank) items)[i]? =
      if i ∈ is ∧ i < items.size then some blank else items[i]? := by
  induction is with
  | nil => intro items; simp
  | cons j is ih =>
    intro items
    rw [List.foldl_cons, ih, Array.size_setIfInBounds, Array.getElem?_setIfInBounds]
    by_cases hj : j = i
    · subst hj
      by_cases hlt : j < items.size <;> simp [hlt]
    · simp [hj, Ne.symm hj]

lemma size_foldl_set (is : List Nat) :
    ∀ items : Array α,
      (is.foldl (fun items i => items.setIfInBounds i blank) items).size = items.size := by
  induction is with
  | nil => exact fun _ => rfl
  | cons j is ih =>
    intro items
    rw [List.foldl_cons, ih, Array.size_setIfInBounds]

/-- An entry that is not released stays. -/
lemma get?_sweep {i : Nat} (hi : i ∉ a.unmarked marked) :
    (a.sweep marked blank).get? i = a.get? i := by
  rw [get?, sweep, getElem?_foldl_set, if_neg fun h => hi h.1, get?]

/-- **A sweep releases indices that were not free.** -/
theorem releases_sweep (h : a.WellFormed) : a.Releases (a.sweep marked blank) := by
  have hsize : (a.sweep marked blank).items.size = a.items.size := size_foldl_set blank _ _
  refine ⟨hsize, ⟨_, rfl⟩, ?_, fun i hi => ?_⟩
  · have hnodup : (a.unmarked marked).Nodup := List.nodup_range.filter _
    refine List.nodup_append.2 ⟨List.nodup_reverse.2 hnodup, h.nodup, fun i hi j hj heq => ?_⟩
    subst heq
    have hfree := ((a.mem_unmarked_iff marked).1 (List.mem_reverse.1 hi)).2.2
    rw [a.isFree_iff.2 hj] at hfree
    cases hfree
  · rw [hsize]
    rcases List.mem_append.1 hi with hi | hi
    · exact ((a.mem_unmarked_iff marked).1 (List.mem_reverse.1 hi)).1
    · exact h.lt_size i hi

end Arena

/-! ## Releasing in the heap -/

namespace Heap

/-- Whether an object has an entry in its arena. -/
def HasEntry (h : Heap) : Object → Prop
  | .string i => i < h.strings.items.size
  | .table i => i < h.tables.items.size
  | .userdata i => i < h.userdata.items.size
  | .env i => i < h.envs.items.size

/-- Whether the entry of an object is the same in another heap: the content of a string, the
entries and the metatable of a table, the slots of an environment, or the payload and the metatable
of an object of the host. -/
def SameEntry (h h' : Heap) : Object → Prop
  | .string i => h'.strings.get? i = h.strings.get? i
  | .table i => h'.tables.get? i = h.tables.get? i
  | .userdata i => h'.userdata.get? i = h.userdata.get? i
  | .env i => h'.envs.get? i = h.envs.get? i

/-- A heap with well-formed free indices. -/
structure FreeWellFormed (h : Heap) : Prop where
  strings : h.strings.WellFormed
  tables : h.tables.WellFormed
  envs : h.envs.WellFormed
  userdata : h.userdata.WellFormed

/-- Whether the handles of the interned contents are those of the strings in use. -/
structure InternsExactly (h : Heap) : Prop where
  content : ∀ c i, h.interned[c]? = some i → h.strings.get? i = some c
  handle : ∀ i c, h.isFree (.string i) = false → h.strings.get? i = some c →
    h.interned[c]? = some i

/-- Whether an entry that was not free in `h` is free in `h'`. -/
structure Frees (h h' : Heap) (o : Object) : Prop where
  hasEntry : h.HasEntry o
  before : h.isFree o = false
  behind : h'.isFree o = true

/-- The heap behind a sweep with the given marks. -/
def sweepWith (h : Heap) (marks : Std.HashSet Object) : Heap := { h with marks := marks }.sweep

variable {h : Heap} {marks marks' : Std.HashSet Object}

/-- A sweep only asks which objects are marked. -/
lemma sweepWith_congr (hmarks : ∀ o, o ∈ marks ↔ o ∈ marks') :
    h.sweepWith marks = h.sweepWith marks' := by
  have hcontains : ∀ o, marks.contains o = marks'.contains o := fun o =>
    Bool.eq_iff_iff.2 (hmarks o)
  simp only [sweepWith, sweep, hcontains]

/-- The objects whose entries a sweep releases. -/
lemma isFree_sweepWith_iff (o : Object) :
    (h.sweepWith marks).isFree o = true ↔
      (h.HasEntry o ∧ o ∉ marks ∧ h.isFree o = false) ∨ h.isFree o = true := by
  have harena : ∀ {α : Type} (a : Arena α) (blank : α) (object : Nat → Object) (i : Nat),
      (a.sweep (fun i => marks.contains (object i)) blank).isFree i = true ↔
        (i < a.items.size ∧ object i ∉ marks ∧ a.isFree i = false) ∨ a.isFree i = true := by
    intro α a blank object i
    rw [Arena.isFree_sweep_iff, Arena.mem_unmarked_iff, ← Bool.not_eq_true,
      Std.HashSet.contains_iff_mem]
  cases o with
  | string i => exact harena h.strings _ .string i
  | table i => exact harena h.tables _ .table i
  | userdata i => exact harena h.userdata _ .userdata i
  | env i => exact harena h.envs _ .env i

/-- The entry of a marked object stays. -/
lemma sameEntry_sweepWith {o : Object} (ho : o ∈ marks) : h.SameEntry (h.sweepWith marks) o := by
  have harena : ∀ {α : Type} (a : Arena α) (blank : α) (object : Nat → Object) (i : Nat),
      object i ∈ marks →
        (a.sweep (fun i => marks.contains (object i)) blank).get? i = a.get? i := by
    intro α a blank object i hi
    refine a.get?_sweep _ _ fun hmem => ?_
    rw [Arena.mem_unmarked_iff, Std.HashSet.contains_iff_mem.2 hi] at hmem
    exact Bool.noConfusion hmem.2.1
  cases o with
  | string i => exact harena h.strings _ .string i ho
  | table i => exact harena h.tables _ .table i ho
  | userdata i => exact harena h.userdata _ .userdata i ho
  | env i => exact harena h.envs _ .env i ho

/-- Erasing keys from a map, one after the other. -/
lemma getElem?_foldl_erase {κ ν ι : Type} [BEq κ] [LawfulBEq κ] [Hashable κ] (key : ι → κ)
    (is : List ι) (k : κ) :
    ∀ m : Std.HashMap κ ν, ((is.foldl (fun m i => m.erase (key i)) m)[k]?) =
      if is.any (key · == k) then none else m[k]? := by
  induction is with
  | nil => exact fun _ => rfl
  | cons j is ih =>
    intro m
    rw [List.foldl_cons, ih, Std.HashMap.getElem?_erase, List.any_cons]
    cases key j == k
    · rfl
    · simp

/-- The strings that a sweep releases. -/
lemma frees_string_iff {i : Nat} :
    h.Frees (h.sweepWith marks) (.string i) ↔
      i ∈ h.strings.unmarked fun i => marks.contains (.string i) := by
  rw [Arena.mem_unmarked_iff, ← Bool.not_eq_true, Std.HashSet.contains_iff_mem]
  constructor
  · rintro ⟨hentry, hbefore, hbehind⟩
    rcases (isFree_sweepWith_iff _).1 hbehind with hfree | hfree
    · exact ⟨hentry, hfree.2.1, hbefore⟩
    · rw [hbefore] at hfree
      cases hfree
  · rintro ⟨hentry, hmarked, hbefore⟩
    exact ⟨hentry, hbefore, (isFree_sweepWith_iff _).2 (.inl ⟨hentry, hmarked, hbefore⟩)⟩

/-- **Exactly the contents of released strings are no longer interned.** -/
lemma getElem?_interned_sweepWith (h : Heap) (marks : Std.HashSet Object) (c : List UInt8) :
    ((∃ i, h.Frees (h.sweepWith marks) (.string i) ∧ h.strings.get? i = some c) →
        (h.sweepWith marks).interned[c]? = none) ∧
      ((¬ ∃ i, h.Frees (h.sweepWith marks) (.string i) ∧ h.strings.get? i = some c) →
        (h.sweepWith marks).interned[c]? = h.interned[c]?) := by
  have hlost : (∃ i, h.Frees (h.sweepWith marks) (.string i) ∧ h.strings.get? i = some c) ↔
      (h.strings.unmarked fun i => marks.contains (.string i)).any
        fun i => (h.strings.get? i).getD [] == c := by
    simp only [frees_string_iff, List.any_eq_true, beq_iff_eq]
    refine exists_congr fun i => and_congr_right fun hi => ?_
    -- the index is in range, so there is a content
    have hlt := ((h.strings.mem_unmarked_iff _).1 hi).1
    rw [Arena.get?, Array.getElem?_eq_getElem hlt, Option.some.injEq, Option.getD_some]
  have herase := getElem?_foldl_erase (fun i => (h.strings.get? i).getD [])
    (h.strings.unmarked fun i => marks.contains (.string i)) c h.interned
  rw [hlost]
  exact ⟨fun hc => herase.trans (if_pos hc), fun hc => herase.trans (if_neg hc)⟩

end Heap

/-! ## Collections of a machine -/

namespace State

/-- **The roots of a machine**: the live slots of the stack, the globals, the registry, and the
upvalues of all functions. -/
inductive IsRoot (s : State) : Value → Prop
  | stack {i : Nat} (hi : i < s.top) : IsRoot s (s.stack.get i)
  | globals : IsRoot s (.table s.globals)
  | registry : IsRoot s (.table s.registry)
  | upvalue {n : Native} {v : Value} (hn : n ∈ s.natives) (hv : v ∈ n.upvalues) : IsRoot s v

/-- Whether an object can be reached from the roots. -/
def Reaches (s : State) (o : Object) : Prop := s.heap.Reachable s.IsRoot o

lemma mem_roots_iff (s : State) (v : Value) : v ∈ s.roots ↔ s.IsRoot v := by
  rw [roots, List.mem_append, List.mem_append]
  constructor
  · rintro ((hv | hv) | hv)
    · obtain ⟨i, hi, rfl⟩ := List.mem_map.1 hv
      exact .stack (List.mem_range.1 hi)
    · rcases List.mem_cons.1 hv with rfl | hv
      · exact .globals
      · rw [List.mem_singleton.1 hv]
        exact .registry
    · obtain ⟨n, hn, hv⟩ := List.mem_flatMap.1 hv
      exact .upvalue (Array.mem_toList_iff.1 hn) (Array.mem_toList_iff.1 hv)
  · intro hv
    cases hv with
    | stack hi => exact .inl (.inl (List.mem_map_of_mem (List.mem_range.2 hi)))
    | globals => exact .inl (.inr List.mem_cons_self)
    | registry => exact .inl (.inr (List.mem_cons_of_mem _ List.mem_cons_self))
    | upvalue hn hv =>
      exact .inr (List.mem_flatMap.2 ⟨_, Array.mem_toList_iff.2 hn, Array.mem_toList_iff.2 hv⟩)

/-- **What a collection does to a state.** -/
structure Collected (s t : State) : Prop where
  /-- An entry that was not free is freed exactly if it cannot be reached. -/
  freed : ∀ o, s.heap.HasEntry o → s.heap.isFree o = false →
    (t.heap.isFree o = true ↔ ¬ s.Reaches o)
  /-- The entries of reachable objects are as they were. -/
  kept : ∀ o, s.Reaches o → s.heap.SameEntry t.heap o
  /-- Free entries stay free. -/
  free : ∀ o, s.heap.isFree o = true → t.heap.isFree o = true
  /-- Freed entries come to the free ones of their arena, each once. -/
  strings : s.heap.strings.Releases t.heap.strings
  tables : s.heap.tables.Releases t.heap.tables
  envs : s.heap.envs.Releases t.heap.envs
  userdata : s.heap.userdata.Releases t.heap.userdata
  /-- The contents of freed strings are no longer interned, -/
  lost : ∀ (c : List UInt8) (i : Nat), s.heap.Frees t.heap (.string i) →
    s.heap.strings.get? i = some c → t.heap.interned[c]? = none
  /-- and all other contents are as before. -/
  interned : ∀ c : List UInt8,
    (∀ i, s.heap.Frees t.heap (.string i) → s.heap.strings.get? i ≠ some c) →
      t.heap.interned[c]? = s.heap.interned[c]?
  /-- So the handles lost are those of the freed strings, if each string in use is interned. -/
  handles : s.heap.InternsExactly → ∀ (c : List UInt8) (i : Nat), s.heap.interned[c]? = some i →
    (t.heap.interned[c]? = none ↔ s.heap.Frees t.heap (.string i))
  /-- No object is marked. -/
  marks : ∀ o, o ∉ t.heap.marks
  stack : t.stack = s.stack
  top : t.top = s.top
  frames : t.frames = s.frames
  natives : t.natives = s.natives
  globals : t.globals = s.globals
  registry : t.registry = s.registry

/-- The state behind a collection that has ended its marking with the given marks. -/
def collectWith (s : State) (marks : Std.HashSet Object) : State :=
  let heap := s.heap.sweepWith marks
  { s with heap := { heap with threshold := max (heap.allocated * 2) Heap.minThreshold } }

/-- A collection that has marked what can be reached does what it should. -/
lemma collected_collectWith {s : State} {marks : Std.HashSet Object}
    (hfree : s.heap.FreeWellFormed) (hmarks : ∀ o, o ∈ marks ↔ s.Reaches o) :
    s.Collected (s.collectWith marks) where
  freed o hentry hbefore := by
    rw [← hmarks o]
    have hfree : (s.heap.sweepWith marks).isFree o = true ↔ _ := Heap.isFree_sweepWith_iff o
    refine hfree.trans ?_
    rw [hbefore]
    simp [hentry]
  kept o ho := Heap.sameEntry_sweepWith ((hmarks o).2 ho)
  free o ho := (Heap.isFree_sweepWith_iff o).2 (.inr ho)
  strings := Arena.releases_sweep _ _ _ hfree.strings
  tables := Arena.releases_sweep _ _ _ hfree.tables
  envs := Arena.releases_sweep _ _ _ hfree.envs
  userdata := Arena.releases_sweep _ _ _ hfree.userdata
  lost c i hi hc := (s.heap.getElem?_interned_sweepWith marks c).1
    ⟨i, ⟨hi.hasEntry, hi.before, hi.behind⟩, hc⟩
  interned c hc := (s.heap.getElem?_interned_sweepWith marks c).2 fun ⟨i, hi, hc'⟩ =>
    hc i ⟨hi.hasEntry, hi.before, hi.behind⟩ hc'
  handles hexact c i hi := by
    obtain ⟨hlost, hkept⟩ := s.heap.getElem?_interned_sweepWith marks c
    constructor
    · intro hnone
      by_contra hfrees
      have hother : ¬ ∃ j, s.heap.Frees (s.heap.sweepWith marks) (.string j) ∧
          s.heap.strings.get? j = some c := by
        rintro ⟨j, hj, hc⟩
        -- the handle of the content is that of the freed string
        have hji := hexact.handle j c hj.before hc
        rw [hi] at hji
        cases hji
        exact hfrees ⟨hj.hasEntry, hj.before, hj.behind⟩
      have hsome := (hkept hother).trans hi
      rw [show (s.heap.sweepWith marks).interned[c]? = none from hnone] at hsome
      cases hsome
    · intro hfrees
      exact hlost ⟨i, ⟨hfrees.hasEntry, hfrees.before, hfrees.behind⟩, hexact.content c i hi⟩
  marks _ := Std.HashSet.not_mem_empty
  stack := rfl
  top := rfl
  frames := rfl
  natives := rfl
  globals := rfl
  registry := rfl

/-- **Exact collection.** From a state with well-formed free indices and without marks, a collection
frees exactly the entries that cannot be reached, whichever order the marking takes: a marking of
any order has a bounded number of steps, and when it cannot go on, the collection ends in the same
state.

**Proof sketch.** A run of the marking takes one unit of weight in each step, and when nothing is
pending it has marked exactly what can be reached. The sweep asks for the marks only. -/
theorem collect_exact (s : State) (hfree : s.heap.FreeWellFormed)
    (hmarks : ∀ o, o ∉ s.heap.marks) :
    s.Collected s.collect ∧ ∀ n m, s.heap.MarkRun n ⟨s.roots, s.heap.marks⟩ m →
      n ≤ s.roots.length + s.heap.referenceCount ∧
        ((∃ m', s.heap.MarkStep m m') ∨ s.collectWith m.marks = s.collect) := by
  have hstart : (⟨s.roots, s.heap.marks⟩ : Heap.Marking).Invariant s.heap s.IsRoot :=
    .of_roots s.mem_roots_iff hmarks
  have hcomplete : ∀ n m, s.heap.MarkRun n ⟨s.roots, s.heap.marks⟩ m → m.pending = [] →
      ∀ o, o ∈ m.marks ↔ s.Reaches o :=
    fun n m hrun hdone o => (hrun.invariant hstart).mem_marks_iff hdone o
  have hweight := Heap.weight_le (h := s.heap) hmarks s.roots
  obtain ⟨n₀, hrun₀⟩ := s.heap.mark_run _ s.roots s.heap.marks hweight
  have hmarks₀ := hcomplete n₀ _ hrun₀ rfl
  refine ⟨collected_collectWith hfree hmarks₀, fun n m hrun => ⟨?_, ?_⟩⟩
  · have hn := hrun.weight
    omega
  · by_cases hdone : m.pending = []
    · refine .inr ?_
      have hsame := Heap.sweepWith_congr (h := s.heap) fun o =>
        (hcomplete n m hrun hdone o).trans (hmarks₀ o).symm
      rw [collectWith, hsame]
      rfl
    · exact .inl (Heap.exists_markStep hdone)

/-- A state with two tables that refer to each other, and that nothing else refers to. -/
def withCycle : State where
  heap := { Heap.empty with
    tables :=
      { items := #[.empty, .empty, Table.empty.set (.bool true) (.table 3),
          Table.empty.set (.bool true) (.table 2), .empty]
        free := [4] } }
  stack := .empty
  top := 0
  frames := [⟨0, none⟩]
  natives := #[]
  globals := 0
  registry := 1
  stress := false
  broken := false

theorem collect_exact_withCycle :
    withCycle.heap.FreeWellFormed ∧ (∀ o, o ∉ withCycle.heap.marks) ∧
      withCycle.Collected withCycle.collect ∧
      ∀ n m, withCycle.heap.MarkRun n ⟨withCycle.roots, withCycle.heap.marks⟩ m →
        n ≤ withCycle.roots.length + withCycle.heap.referenceCount ∧
          ((∃ m', withCycle.heap.MarkStep m m') ∨
            withCycle.collectWith m.marks = withCycle.collect) := by
  have hempty : ∀ {α : Type}, (Arena.empty : Arena α).WellFormed := ⟨List.nodup_nil, nofun⟩
  have htables : withCycle.heap.tables.WellFormed := ⟨List.nodup_singleton 4, by decide⟩
  have hfree : withCycle.heap.FreeWellFormed := ⟨hempty, htables, hempty, hempty⟩
  have hmarks : ∀ o, o ∉ withCycle.heap.marks := fun _ => Std.HashSet.not_mem_empty
  exact ⟨hfree, hmarks, collect_exact withCycle hfree hmarks⟩

end State

end ScriptCore
