import Mathlib
import ScriptCore.Heap.Collector

set_option relaxedAutoImplicit false
set_option autoImplicit false

/-!
# Marking

A collection starts with a list of values to look at, and takes them from the list one by one. The
object of a value is marked when it is met first, and what it refers to is put on the list. In
which order values are taken, and in which order the entries of a table are listed, is left open
here: marking is a relation between the states of the list and the marks.

Whatever the order, every step takes one unit from a weight that the heap bounds, and when the list
is empty, the marked objects are those that can be reached from the values the marking has started
from. The graph of objects may have cycles, and handles that lead nowhere.

## Main definitions

* `ScriptCore.Heap.Refers`, `ScriptCore.Heap.Reachable` — references and reachable objects.
* `ScriptCore.Heap.MarkStep`, `ScriptCore.Heap.MarkRun` — marking, in any order.
* `ScriptCore.Heap.weight` — what is left to do.

## Main results

* `ScriptCore.Heap.MarkRun.weight` — the length of a run.
* `ScriptCore.Heap.MarkRun.mem_marks_iff` — a complete run has marked what can be reached.
* `ScriptCore.Heap.mark_run` — the marking of a collection is a complete run.
-/

namespace ScriptCore

/-- The references of a table are its keys, their values and its metatable. -/
lemma Table.mem_references_iff {t : Table} {v : Value} :
    v ∈ t.references ↔ (∃ k w, t.entries[k]? = some w ∧ (v = k ∨ v = w)) ∨
      ∃ mt, t.metatable = some mt ∧ v = .table mt := by
  rw [references, List.mem_append]
  refine or_congr ⟨fun hv => ?_, ?_⟩ ⟨fun hv => ?_, ?_⟩
  · obtain ⟨⟨k, w⟩, hentry, hv⟩ := List.mem_flatMap.1 hv
    refine ⟨k, w, Std.HashMap.mem_toList_iff_getElem?_eq_some.1 hentry, ?_⟩
    simpa using hv
  · rintro ⟨k, w, hentry, hv⟩
    refine List.mem_flatMap.2 ⟨(k, w), Std.HashMap.mem_toList_iff_getElem?_eq_some.2 hentry, ?_⟩
    simpa using hv
  · obtain ⟨mt, hmt, rfl⟩ := Option.map_eq_some_iff.1 (Option.mem_toList.1 hv)
    exact ⟨mt, hmt, rfl⟩
  · rintro ⟨mt, hmt, rfl⟩
    exact Option.mem_toList.2 (Option.map_eq_some_iff.2 ⟨mt, hmt, rfl⟩)

/-- A table refers to two values for each entry and to its metatable. -/
lemma Table.length_references_le (t : Table) : t.references.length ≤ 2 * t.entries.size + 1 := by
  have hentries : ∀ f : Value × Value → List Value, (∀ x, (f x).length = 2) →
      ∀ l : List (Value × Value), (l.flatMap f).length = 2 * l.length := by
    intro f hf l
    induction l with
    | nil => rfl
    | cons x l ih =>
      rw [List.flatMap_cons, List.length_append, ih, hf, List.length_cons]
      omega
  rw [references, List.length_append, hentries _ fun _ => rfl, Std.HashMap.length_toList]
  cases t.metatable
  · exact Nat.le_succ _
  · exact Nat.le_refl _

namespace Heap

/-! ## References -/

/-- **The references of objects**: the keys, the values and the metatable of a table, the slots of
an environment, and the metatable of an object of the host. -/
inductive Refers (h : Heap) : Object → Value → Prop
  | key {i : Nat} {t : Table} {k v : Value} (ht : h.tables.get? i = some t)
    (hentry : t.entries[k]? = some v) : Refers h (.table i) k
  | value {i : Nat} {t : Table} {k v : Value} (ht : h.tables.get? i = some t)
    (hentry : t.entries[k]? = some v) : Refers h (.table i) v
  | tableMetatable {i mt : Nat} {t : Table} (ht : h.tables.get? i = some t)
    (hmt : t.metatable = some mt) : Refers h (.table i) (.table mt)
  | slot {i : Nat} {e : Env} {v : Value} (he : h.envs.get? i = some e) (hv : v ∈ e.slots) :
    Refers h (.env i) v
  | userdataMetatable {i mt : Nat} {u : Userdata} (hu : h.userdata.get? i = some (some u))
    (hmt : u.metatable = some mt) : Refers h (.userdata i) (.table mt)

/-- **The objects that can be reached** from given values. -/
inductive Reachable (h : Heap) (roots : Value → Prop) : Object → Prop
  | root {v : Value} {o : Object} (hv : roots v) (ho : v.object? = some o) : Reachable h roots o
  | step {o o' : Object} {v : Value} (hr : Reachable h roots o) (href : h.Refers o v)
    (ho : v.object? = some o') : Reachable h roots o'

/-- The references of an object are listed. -/
lemma mem_references_iff {h : Heap} {o : Object} {v : Value} :
    v ∈ h.references o ↔ h.Refers o v := by
  cases o with
  | string i => exact ⟨fun hv => absurd hv List.not_mem_nil, nofun⟩
  | table i =>
    rw [references]
    constructor
    · intro hv
      rcases ht : h.tables.get? i with _ | t
      · rw [ht] at hv
        exact absurd hv List.not_mem_nil
      · rw [ht] at hv
        rcases Table.mem_references_iff.1 hv with ⟨k, w, hentry, rfl | rfl⟩ | ⟨mt, hmt, rfl⟩
        · exact .key ht hentry
        · exact .value ht hentry
        · exact .tableMetatable ht hmt
    · intro hv
      cases hv with
      | key ht hentry =>
        rw [ht]
        exact Table.mem_references_iff.2 (.inl ⟨_, _, hentry, .inl rfl⟩)
      | value ht hentry =>
        rw [ht]
        exact Table.mem_references_iff.2 (.inl ⟨_, _, hentry, .inr rfl⟩)
      | tableMetatable ht hmt =>
        rw [ht]
        exact Table.mem_references_iff.2 (.inr ⟨_, hmt, rfl⟩)
  | env i =>
    rw [references]
    constructor
    · intro hv
      rcases he : h.envs.get? i with _ | e
      · rw [he] at hv
        exact absurd hv List.not_mem_nil
      · rw [he] at hv
        exact .slot he (Array.mem_toList_iff.1 hv)
    · rintro ⟨⟩
      rename_i e he hv
      rw [he]
      exact Array.mem_toList_iff.2 hv
  | userdata i =>
    rw [references, userdata?]
    constructor
    · intro hv
      rcases hu : h.userdata.get? i with _ | _ | u
      · rw [hu] at hv
        exact absurd hv List.not_mem_nil
      · rw [hu] at hv
        exact absurd hv List.not_mem_nil
      · rw [hu] at hv
        obtain ⟨mt, hmt, rfl⟩ := Option.map_eq_some_iff.1 (Option.mem_toList.1 hv)
        exact .userdataMetatable hu hmt
    · rintro ⟨⟩
      rename_i mt u hmt hu
      rw [hu]
      exact Option.mem_toList.2 (Option.map_eq_some_iff.2 ⟨mt, hmt, rfl⟩)

/-! ## Marking in any order -/

/-- A state of the marking: the values still to look at, and the objects marked so far. -/
structure Marking where
  pending : List Value
  marks : Std.HashSet Object

/-- **One step of the marking**, which takes any of the pending values. -/
inductive MarkStep (h : Heap) : Marking → Marking → Prop
  /-- A value without an object, or with a marked one, is passed. -/
  | skip {v : Value} {pending rest : List Value} {marks : Std.HashSet Object}
    (htake : pending.Perm (v :: rest)) (hmarked : ∀ o, v.object? = some o → o ∈ marks) :
    MarkStep h ⟨pending, marks⟩ ⟨rest, marks⟩
  /-- An object that is not marked is marked, and what it refers to gets pending in any order. -/
  | mark {v : Value} {o : Object} {pending rest pending' : List Value}
    {marks : Std.HashSet Object} (htake : pending.Perm (v :: rest)) (ho : v.object? = some o)
    (hnew : o ∉ marks) (hput : pending'.Perm (h.references o ++ rest)) :
    MarkStep h ⟨pending, marks⟩ ⟨pending', marks.insert o⟩

/-- A run of the marking with its number of steps. -/
inductive MarkRun (h : Heap) : Nat → Marking → Marking → Prop
  | done (m : Marking) : MarkRun h 0 m m
  | step {n : Nat} {m m₁ m' : Marking} (hstep : h.MarkStep m m₁) (hrun : h.MarkRun n m₁ m') :
    MarkRun h (n + 1) m m'

/-- Marking can go on as long as values are pending. -/
lemma exists_markStep {h : Heap} {m : Marking} (hm : m.pending ≠ []) :
    ∃ m', h.MarkStep m m' := by
  obtain ⟨pending, marks⟩ := m
  obtain ⟨v, rest, hcons⟩ := List.exists_cons_of_ne_nil hm
  change pending = v :: rest at hcons
  subst hcons
  rcases ho : v.object? with _ | o
  · exact ⟨_, .skip (.refl _) fun _ h => by rw [ho] at h; cases h⟩
  · by_cases hmarked : o ∈ marks
    · refine ⟨_, .skip (.refl _) fun o' h => ?_⟩
      rw [ho] at h
      cases h
      exact hmarked
    · exact ⟨_, .mark (.refl _) ho hmarked (.refl _)⟩

/-! ## What a marking has done -/

section Invariant

variable {h : Heap} {roots : Value → Prop}

/-- Whether the object of a value, if it has one, is marked. -/
def Marking.Seen (m : Marking) (v : Value) : Prop := ∀ o, v.object? = some o → o ∈ m.marks

/-- **What holds in all states of a marking**: only what can be reached is pending or marked, and
the values it has started from, as well as what marked objects refer to, are pending or seen. -/
structure Marking.Invariant (h : Heap) (roots : Value → Prop) (m : Marking) : Prop where
  pending : ∀ v ∈ m.pending, ∀ o, v.object? = some o → h.Reachable roots o
  marks : ∀ o ∈ m.marks, h.Reachable roots o
  start : ∀ v, roots v → v ∈ m.pending ∨ m.Seen v
  closed : ∀ o ∈ m.marks, ∀ v, h.Refers o v → v ∈ m.pending ∨ m.Seen v

lemma Marking.Invariant.of_roots {rs : List Value} {marks : Std.HashSet Object}
    (hroots : ∀ v, v ∈ rs ↔ roots v) (hmarks : ∀ o, o ∉ marks) :
    Marking.Invariant h roots ⟨rs, marks⟩ where
  pending v hv _ ho := .root ((hroots v).1 hv) ho
  marks o ho := absurd ho (hmarks o)
  start v hv := .inl ((hroots v).2 hv)
  closed o ho := absurd ho (hmarks o)

/-- **A step keeps the invariant.** -/
theorem MarkStep.invariant {m m' : Marking} (hstep : h.MarkStep m m')
    (hm : m.Invariant h roots) : m'.Invariant h roots := by
  cases hstep with
  | @skip v pending rest marks htake hmarked =>
    -- the value taken is seen
    have hleft : ∀ w, w ∈ pending ∨ Marking.Seen ⟨pending, marks⟩ w →
        w ∈ rest ∨ Marking.Seen ⟨rest, marks⟩ w := by
      rintro w (hw | hw)
      · rcases List.mem_cons.1 (htake.subset hw) with rfl | hw
        · exact .inr hmarked
        · exact .inl hw
      · exact .inr hw
    refine ⟨fun w hw => ?_, hm.marks, fun w hw => hleft w (hm.start w hw),
      fun o ho w hw => hleft w (hm.closed o ho w hw)⟩
    exact hm.pending w (htake.symm.subset (List.mem_cons_of_mem _ hw))
  | @mark v o pending rest pending' marks htake ho hnew hput =>
    have hreach : h.Reachable roots o :=
      hm.pending v (htake.symm.subset List.mem_cons_self) o ho
    have hleft : ∀ w, w ∈ pending ∨ Marking.Seen ⟨pending, marks⟩ w →
        w ∈ pending' ∨ Marking.Seen ⟨pending', marks.insert o⟩ w := by
      rintro w (hw | hw)
      · rcases List.mem_cons.1 (htake.subset hw) with rfl | hw
        · refine .inr fun o' ho' => ?_
          rw [ho] at ho'
          cases ho'
          exact Std.HashSet.mem_insert_self
        · exact .inl (hput.symm.subset (List.mem_append_right _ hw))
      · exact .inr fun o' ho' => Std.HashSet.mem_insert.2 (.inr (hw o' ho'))
    refine ⟨fun w hw o' ho' => ?_, fun o' ho' => ?_, fun w hw => hleft w (hm.start w hw),
      fun o' ho' w hw => ?_⟩
    · rcases List.mem_append.1 (hput.subset hw) with hw | hw
      · exact .step hreach (mem_references_iff.1 hw) ho'
      · exact hm.pending w (htake.symm.subset (List.mem_cons_of_mem _ hw)) o' ho'
    · rcases Std.HashSet.mem_insert.1 ho' with heq | ho'
      · rw [← beq_iff_eq.1 heq]
        exact hreach
      · exact hm.marks o' ho'
    · rcases Std.HashSet.mem_insert.1 ho' with heq | ho'
      · rw [← beq_iff_eq.1 heq] at hw
        exact .inl (hput.symm.subset (List.mem_append_left _ (mem_references_iff.2 hw)))
      · exact hleft w (hm.closed o' ho' w hw)

/-- A run keeps the invariant. -/
theorem MarkRun.invariant {n : Nat} {m m' : Marking} (hrun : h.MarkRun n m m')
    (hm : m.Invariant h roots) : m'.Invariant h roots := by
  induction hrun with
  | done m => exact hm
  | step hstep hrun ih => exact ih (hstep.invariant hm)

/-- When nothing is pending, exactly what can be reached is marked. -/
theorem Marking.Invariant.mem_marks_iff {m : Marking} (hm : m.Invariant h roots)
    (hdone : m.pending = []) (o : Object) : o ∈ m.marks ↔ h.Reachable roots o := by
  have hseen : ∀ v, v ∈ m.pending ∨ m.Seen v → m.Seen v := by
    rintro v (hv | hv)
    · rw [hdone] at hv
      exact absurd hv List.not_mem_nil
    · exact hv
  constructor
  · exact hm.marks o
  · intro hreach
    induction hreach with
    | root hv ho => exact hseen _ (hm.start _ hv) _ ho
    | step hr href ho ih => exact hseen _ (hm.closed _ ih _ href) _ ho

end Invariant

/-! ## What is left to do -/

/-- The objects that may refer to values. -/
def referrers (h : Heap) : List Object :=
  (List.range h.tables.items.size).map .table ++ (List.range h.envs.items.size).map .env ++
    (List.range h.userdata.items.size).map .userdata

/-- The number of references of the objects that are not marked. -/
def openReferences (h : Heap) (marks : Std.HashSet Object) : Nat :=
  ((h.referrers.filter (· ∉ marks)).map fun o => (h.references o).length).sum

/-- **What is left to do** in a state of the marking: the pending values, and those that will get
pending. -/
def weight (h : Heap) (m : Marking) : Nat := m.pending.length + h.openReferences m.marks

lemma weight_mk (h : Heap) (pending : List Value) (marks : Std.HashSet Object) :
    h.weight ⟨pending, marks⟩ = pending.length + h.openReferences marks := rfl

lemma nodup_referrers (h : Heap) : h.referrers.Nodup := by
  have hmap : ∀ (f : Nat → Object) (n : Nat), f.Injective → ((List.range n).map f).Nodup :=
    fun f n hf => List.Nodup.map hf List.nodup_range
  refine List.nodup_append.2 ⟨List.nodup_append.2 ⟨?_, ?_, ?_⟩, ?_, ?_⟩
  · exact hmap _ _ fun i j hij => Object.table.inj hij
  · exact hmap _ _ fun i j hij => Object.env.inj hij
  · intro o ho o' ho' heq
    obtain ⟨i, -, rfl⟩ := List.mem_map.1 ho
    obtain ⟨j, -, rfl⟩ := List.mem_map.1 ho'
    cases heq
  · exact hmap _ _ fun i j hij => Object.userdata.inj hij
  · intro o ho o' ho' heq
    obtain ⟨j, -, rfl⟩ := List.mem_map.1 ho'
    subst heq
    simp at ho

/-- Other objects refer to nothing. -/
lemma references_eq_nil {h : Heap} {o : Object} (ho : o ∉ h.referrers) : h.references o = [] := by
  cases o with
  | string i => rfl
  | table i =>
    have hi : h.tables.get? i = none := Array.getElem?_eq_none (by simpa [referrers] using ho)
    rw [references, hi]
    rfl
  | env i =>
    have hi : h.envs.get? i = none := Array.getElem?_eq_none (by simpa [referrers] using ho)
    rw [references, hi]
    rfl
  | userdata i =>
    have hi : h.userdata.get? i = none := Array.getElem?_eq_none (by simpa [referrers] using ho)
    rw [references, userdata?, hi]
    rfl

/-- Marking an object takes its part of a sum over the objects that are not marked. -/
lemma sum_filter_insert {marks : Std.HashSet Object} {o : Object} (hnew : o ∉ marks)
    (f : Object → Nat) {os : List Object} (hos : os.Nodup) :
    ((os.filter (· ∉ marks)).map f).sum =
      (if o ∈ os then f o else 0) + ((os.filter (· ∉ marks.insert o)).map f).sum := by
  induction os with
  | nil => rfl
  | cons x os ih =>
    obtain ⟨hx, hos⟩ := List.nodup_cons.1 hos
    have ih := ih hos
    by_cases hxo : x = o
    · subst hxo
      rw [if_neg hx] at ih
      rw [List.filter_cons_of_pos (by simpa using hnew), List.filter_cons_of_neg (by simp),
        if_pos List.mem_cons_self, List.map_cons, List.sum_cons, ih, Nat.zero_add]
    · have hmem : x ∈ marks.insert o ↔ x ∈ marks := by
        simp [Std.HashSet.mem_insert, Ne.symm hxo]
      have ho : o ∈ x :: os ↔ o ∈ os := by simp [Ne.symm hxo]
      by_cases hmarked : x ∈ marks
      · rw [List.filter_cons_of_neg (by simpa using hmarked),
          List.filter_cons_of_neg (by simpa [hmem] using hmarked), ih]
        simp only [ho]
      · rw [List.filter_cons_of_pos (by simpa using hmarked),
          List.filter_cons_of_pos (by simpa [hmem] using hmarked), List.map_cons, List.map_cons,
          List.sum_cons, List.sum_cons, ih]
        simp only [ho]
        omega

/-- Marking an object takes its references from those that are open. -/
lemma openReferences_insert (h : Heap) {marks : Std.HashSet Object} {o : Object}
    (hnew : o ∉ marks) :
    h.openReferences marks = (h.references o).length + h.openReferences (marks.insert o) := by
  rw [openReferences, sum_filter_insert hnew _ h.nodup_referrers, ← openReferences]
  split
  · rfl
  · rename_i ho
    rw [references_eq_nil ho]
    rfl

/-- **Every step takes one unit of weight.** -/
theorem MarkStep.weight {h : Heap} {m m' : Marking} (hstep : h.MarkStep m m') :
    h.weight m = h.weight m' + 1 := by
  cases hstep with
  | skip htake hmarked =>
    rw [weight_mk, weight_mk, htake.length_eq, List.length_cons]
    omega
  | mark htake ho hnew hput =>
    have hlength := hput.length_eq
    rw [List.length_append] at hlength
    rw [weight_mk, weight_mk, htake.length_eq, List.length_cons, hlength,
      openReferences_insert h hnew]
    omega

/-- **A run takes as many units of weight as it has steps.** -/
theorem MarkRun.weight {h : Heap} {n : Nat} {m m' : Marking} (hrun : h.MarkRun n m m') :
    h.weight m = h.weight m' + n := by
  induction hrun with
  | done m => rfl
  | step hstep hrun ih =>
    rw [hstep.weight, ih, Nat.add_assoc]

lemma sum_map_range_le {α : Type} (f : Nat → Nat) (g : α → Nat) (items : List α)
    (hfg : ∀ i x, items[i]? = some x → f i ≤ g x) :
    ((List.range items.length).map f).sum ≤ (items.map g).sum := by
  induction items generalizing f with
  | nil => exact Nat.le_refl 0
  | cons x items ih =>
    rw [List.length_cons, List.range_succ_eq_map, List.map_cons, List.sum_cons, List.map_map,
      List.map_cons, List.sum_cons]
    refine Nat.add_le_add (hfg 0 x rfl) (ih _ fun i y hy => hfg (i + 1) y hy)

lemma foldl_add_eq_sum {α : Type} (g : α → Nat) (items : Array α) :
    items.foldl (fun n x => n + g x) 0 = (items.toList.map g).sum := by
  rw [← Array.foldl_toList, List.sum_eq_foldl, List.foldl_map]

/-- **The weight of a heap without marks** is bounded by the number of its references. -/
lemma weight_le {h : Heap} {marks : Std.HashSet Object} (hmarks : ∀ o, o ∉ marks)
    (pending : List Value) :
    h.weight ⟨pending, marks⟩ ≤ pending.length + h.referenceCount := by
  have hopen : h.referrers.filter (· ∉ marks) = h.referrers :=
    List.filter_eq_self.2 fun o _ => by simpa using hmarks o
  have htables : ((List.range h.tables.items.size).map fun i =>
      (h.references (.table i)).length).sum ≤
        (h.tables.items.toList.map fun t => 2 * t.entries.size + 1).sum := by
    refine sum_map_range_le _ _ _ fun i t ht => ?_
    rw [Array.getElem?_toList] at ht
    rw [references, Arena.get?, ht]
    exact t.length_references_le
  have henvs : ((List.range h.envs.items.size).map fun i =>
      (h.references (.env i)).length).sum ≤
        (h.envs.items.toList.map fun e => e.slots.size).sum := by
    refine sum_map_range_le _ _ _ fun i e he => ?_
    rw [Array.getElem?_toList] at he
    rw [references, Arena.get?, he]
    exact Nat.le_of_eq Array.length_toList
  have huserdata : ((List.range h.userdata.items.size).map fun i =>
      (h.references (.userdata i)).length).sum ≤ h.userdata.items.size := by
    have hone := sum_map_range_le (fun i => (h.references (.userdata i)).length) (fun _ => 1)
      h.userdata.items.toList fun i u _ => ?_
    · simpa using hone
    · rw [references]
      cases ((h.userdata? i).bind (·.metatable)).map Value.table
      · exact Nat.zero_le _
      · exact Nat.le_refl _
  rw [weight_mk, openReferences, hopen, referrers, referenceCount, foldl_add_eq_sum,
    foldl_add_eq_sum, List.map_append, List.map_append, List.sum_append, List.sum_append,
    List.map_map, List.map_map, List.map_map]
  exact Nat.add_le_add_left (Nat.add_le_add (Nat.add_le_add htables henvs) huserdata) _

/-! ## The marking of a collection -/

/-- **The marking of a collection** is a run, and a complete one if there is enough fuel. -/
theorem mark_run (h : Heap) (fuel : Nat) :
    ∀ (pending : List Value) (marks : Std.HashSet Object), h.weight ⟨pending, marks⟩ ≤ fuel →
      ∃ n, h.MarkRun n ⟨pending, marks⟩ ⟨[], h.mark fuel pending marks⟩ := by
  have hstep : ∀ {m m₁ : Marking} {marks' : Std.HashSet Object} {fuel : Nat},
      h.weight m ≤ fuel + 1 → h.MarkStep m m₁ →
      (h.weight m₁ ≤ fuel → ∃ n, h.MarkRun n m₁ ⟨[], marks'⟩) →
      ∃ n, h.MarkRun n m ⟨[], marks'⟩ := by
    intro m m₁ marks' fuel hfuel hstep hrest
    obtain ⟨n, hrun⟩ := hrest (by have := hstep.weight; omega)
    exact ⟨n + 1, .step hstep hrun⟩
  induction fuel with
  | zero =>
    intro pending marks hfuel
    have hpending : pending = [] := List.eq_nil_of_length_eq_zero (by
      rw [weight_mk] at hfuel
      omega)
    subst hpending
    exact ⟨0, .done _⟩
  | succ fuel ih =>
    intro pending marks hfuel
    cases pending with
    | nil => exact ⟨0, .done _⟩
    | cons v rest =>
      rw [mark]
      rcases ho : v.object? with _ | o
      · exact hstep hfuel (.skip (.refl _) fun _ h => by rw [ho] at h; cases h) (ih rest marks)
      · show ∃ n, h.MarkRun n _ ⟨[], if marks.contains o then _ else _⟩
        by_cases hmarked : marks.contains o
        · rw [if_pos hmarked]
          refine hstep hfuel (.skip (.refl _) fun o' h => ?_) (ih rest marks)
          rw [ho] at h
          cases h
          exact hmarked
        · rw [if_neg hmarked]
          exact hstep hfuel (.mark (.refl _) ho hmarked (.refl _)) (ih _ _)

end Heap

end ScriptCore
