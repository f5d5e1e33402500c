import ScriptCore.Proofs.Collection

set_option relaxedAutoImplicit false
set_option autoImplicit false

/-!
# Giving out and releasing indices

An index of an arena is in use if it has an entry and is not free. Giving out an index takes one
that is not in use and leaves the entries of all others alone; a sweep ends the use of the indices
that are not marked.

## Main definitions

* `ScriptCore.Arena.InUse`, `ScriptCore.Heap.InUse` — indices and objects in use.

## Main results

* `ScriptCore.Arena.inUse_alloc_iff`, `ScriptCore.Arena.inUse_sweep_iff` — what is in use
  afterwards.
* `ScriptCore.Arena.WellFormed.alloc` — free indices stay well formed.
-/

namespace ScriptCore

namespace Arena

variable {α : Type}

/-- Whether an index has an entry and is not free. -/
structure InUse (a : Arena α) (i : Nat) : Prop where
  lt_size : i < a.items.size
  notFree : a.isFree i = false

variable {a : Arena α} {i : Nat}

lemma isFree_eq_false_iff : a.isFree i = false ↔ i ∉ a.free := by
  rw [← Bool.not_eq_true, isFree_iff]

/-- An index in use has an entry. -/
lemma InUse.exists_get? (h : a.InUse i) : ∃ x, a.get? i = some x :=
  ⟨_, Array.getElem?_eq_getElem h.lt_size⟩

/-- Only indices below the size have an entry. -/
lemma lt_size_of_get? {x : α} (h : a.get? i = some x) : i < a.items.size := by
  by_contra hlt
  rw [get?, Array.getElem?_eq_none (Nat.le_of_not_lt hlt)] at h
  cases h

/-! ## Giving out an index -/

lemma size_le_size_alloc (a : Arena α) (x : α) : a.items.size ≤ (a.alloc x).2.items.size := by
  unfold alloc
  split <;> simp

lemma size_alloc_le (a : Arena α) (x : α) : (a.alloc x).2.items.size ≤ a.items.size + 1 := by
  unfold alloc
  split <;> simp

/-- **The index given out was not in use**, and has an entry afterwards. -/
theorem WellFormed.alloc_index (h : a.WellFormed) (x : α) :
    ¬ a.InUse (a.alloc x).1 ∧ (a.alloc x).1 < (a.alloc x).2.items.size := by
  unfold Arena.alloc
  split
  · next i rest hfree =>
    have hi : i ∈ a.free := by simp [hfree]
    refine ⟨fun hin => ?_, by simpa using h.lt_size i hi⟩
    exact isFree_eq_false_iff.1 hin.notFree hi
  · exact ⟨fun hin => absurd hin.lt_size (Nat.lt_irrefl _), by simp⟩

/-- Giving out an index keeps the free ones well formed. -/
theorem WellFormed.alloc (h : a.WellFormed) (x : α) : (a.alloc x).2.WellFormed := by
  unfold Arena.alloc
  split
  · next i rest hfree =>
    refine ⟨?_, fun j hj => ?_⟩
    · have hnodup := h.nodup
      rw [hfree] at hnodup
      exact (List.nodup_cons.1 hnodup).2
    · simpa using h.lt_size j (by simp [hfree, hj])
  · next hfree =>
    refine ⟨by simp [hfree], fun j hj => ?_⟩
    rw [hfree] at hj
    cases hj

/-- **What is in use behind an allocation**: what was in use, and the index given out. -/
theorem WellFormed.inUse_alloc_iff (h : a.WellFormed) (x : α) :
    (a.alloc x).2.InUse i ↔ i = (a.alloc x).1 ∨ a.InUse i := by
  have hindex := h.alloc_index x
  have hnodup := h.nodup
  unfold Arena.alloc at hindex ⊢
  split at hindex
  · next j rest hfree =>
    rw [hfree] at hnodup
    obtain ⟨hj, -⟩ := List.nodup_cons.1 hnodup
    constructor
    · rintro ⟨hlt, hnotFree⟩
      by_cases hij : i = j
      · exact .inl hij
      · refine .inr ⟨by simpa using hlt, isFree_eq_false_iff.2 ?_⟩
        rw [hfree, List.mem_cons]
        exact not_or.2 ⟨hij, isFree_eq_false_iff.1 hnotFree⟩
    · rintro (rfl | hin)
      · exact ⟨hindex.2, isFree_eq_false_iff.2 hj⟩
      · refine ⟨by simpa using hin.lt_size, isFree_eq_false_iff.2 fun hi => ?_⟩
        exact isFree_eq_false_iff.1 hin.notFree (by simp [hfree, hi])
  · next hfree =>
    simp only
    constructor
    · rintro ⟨hlt, hnotFree⟩
      rw [Array.size_push] at hlt
      rcases Nat.lt_succ_iff_lt_or_eq.1 hlt with hlt | heq
      · exact .inr ⟨hlt, hnotFree⟩
      · exact .inl heq
    · have hfree' : ∀ j, a.isFree j = false := fun j => by simp [isFree, hfree]
      rintro (rfl | hin)
      · exact ⟨hindex.2, hfree' _⟩
      · exact ⟨by rw [Array.size_push]; exact Nat.lt_succ_of_lt hin.lt_size, hfree' _⟩

/-- Giving out an index frees none. -/
lemma WellFormed.isFree_of_isFree_alloc (h : a.WellFormed) (x : α)
    (hfree : (a.alloc x).2.isFree i = true) : i ≠ (a.alloc x).1 ∧ a.isFree i = true := by
  have hnodup := h.nodup
  rw [isFree_iff] at hfree ⊢
  unfold Arena.alloc at hfree ⊢
  split at hfree
  · next j rest hrest =>
    rw [hrest] at hnodup
    refine ⟨?_, by rw [hrest]; exact List.mem_cons_of_mem j hfree⟩
    rintro rfl
    exact (List.nodup_cons.1 hnodup).1 hfree
  · next hempty =>
    rw [hempty] at hfree
    cases hfree

/-- The entry of the index given out. -/
lemma WellFormed.get?_alloc (h : a.WellFormed) (x : α) :
    (a.alloc x).2.get? (a.alloc x).1 = some x :=
  Arena.get?_alloc a x h.lt_size

/-- An entry in use stays. -/
lemma WellFormed.get?_alloc_of_inUse (h : a.WellFormed) (x : α) (hin : a.InUse i) :
    (a.alloc x).2.get? i = a.get? i := by
  refine get?_alloc_of_ne a x fun heq => (h.alloc_index x).1 ?_
  rwa [← heq]

/-! ## Changing an entry -/

lemma get?_modify (a : Arena α) (i j : Nat) (f : α → α) :
    (a.modify i f).get? j = if i = j then (a.get? j).map f else a.get? j := by
  rw [get?, modify, Array.getElem?_modify, get?]

@[simp]
lemma isFree_modify (a : Arena α) (i j : Nat) (f : α → α) :
    (a.modify i f).isFree j = a.isFree j := rfl

@[simp]
lemma inUse_modify_iff (a : Arena α) (i j : Nat) (f : α → α) :
    (a.modify i f).InUse j ↔ a.InUse j := by
  constructor <;> rintro ⟨hlt, hfree⟩
  · exact ⟨by simpa [modify] using hlt, hfree⟩
  · exact ⟨by simpa [modify] using hlt, hfree⟩

lemma size_modify (a : Arena α) (i : Nat) (f : α → α) : (a.modify i f).items.size = a.items.size :=
  Array.size_modify ..

lemma WellFormed.modify (h : a.WellFormed) (i : Nat) (f : α → α) : (a.modify i f).WellFormed :=
  ⟨h.nodup, fun j hj => by simpa [Arena.modify] using h.lt_size j hj⟩

lemma modify_id (a : Arena α) (i : Nat) : a.modify i id = a := by
  have hitems : a.items.modify i id = a.items := by
    refine Array.ext (Array.size_modify ..) fun j _ _ => ?_
    rw [Array.getElem_modify]
    split <;> rfl
  rw [modify, hitems]

lemma modify_modify (a : Arena α) (i : Nat) (f g : α → α) :
    (a.modify i f).modify i g = a.modify i fun x => g (f x) := by
  have hitems : (a.items.modify i f).modify i g = a.items.modify i fun x => g (f x) := by
    refine Array.ext (by simp only [Array.size_modify]) fun j _ _ => ?_
    rw [Array.getElem_modify, Array.getElem_modify, Array.getElem_modify]
    split <;> rfl
  rw [modify, modify, hitems, modify]

/-- Replacing an entry changes it to a constant. -/
lemma set_eq_modify (a : Arena α) (i : Nat) (x : α) : a.set i x = a.modify i fun _ => x := by
  rw [set, modify]
  congr 1

/-! ## Releasing indices -/

/-- **What is in use behind a sweep**: the marked ones of what was in use. -/
theorem inUse_sweep_iff (a : Arena α) (marked : Nat → Bool) (blank : α) :
    (a.sweep marked blank).InUse i ↔ a.InUse i ∧ marked i = true := by
  have hsize : (a.sweep marked blank).items.size = a.items.size := size_foldl_set blank _ _
  have hfree := isFree_sweep_iff a marked blank (i := i)
  rw [mem_unmarked_iff] at hfree
  constructor
  · rintro ⟨hlt, hnotFree⟩
    rw [hsize] at hlt
    have hnot : ¬ _ := fun h => Bool.noConfusion (hnotFree.symm.trans (hfree.2 h))
    have hbefore : a.isFree i = false := by
      rw [← Bool.not_eq_true]
      exact fun h => hnot (.inr h)
    refine ⟨⟨hlt, hbefore⟩, ?_⟩
    rw [← Bool.not_eq_false]
    exact fun h => hnot (.inl ⟨hlt, h, hbefore⟩)
  · rintro ⟨hin, hmarked⟩
    refine ⟨by rw [hsize]; exact hin.lt_size, ?_⟩
    rw [← Bool.not_eq_true, hfree]
    rintro (⟨-, hunmarked, -⟩ | h)
    · rw [hmarked] at hunmarked
      cases hunmarked
    · rw [hin.notFree] at h
      cases h

/-- The entry of a released index is blank. -/
lemma get?_sweep_of_unmarked (a : Arena α) (marked : Nat → Bool) (blank : α)
    (hi : i ∈ a.unmarked marked) : (a.sweep marked blank).get? i = some blank := by
  have hlt := ((mem_unmarked_iff a marked).1 hi).1
  rw [get?, sweep, getElem?_foldl_set, if_pos ⟨hi, hlt⟩]

end Arena

/-! ## Objects of a heap -/

namespace Heap

/-- Whether an object has an entry in its arena and its index is not free. -/
def InUse (h : Heap) : Object → Prop
  | .string i => h.strings.InUse i
  | .table i => h.tables.InUse i
  | .userdata i => h.userdata.InUse i
  | .env i => h.envs.InUse i

lemma inUse_iff {h : Heap} {o : Object} : h.InUse o ↔ h.HasEntry o ∧ h.isFree o = false := by
  cases o <;> exact ⟨fun hin => ⟨hin.lt_size, hin.notFree⟩, fun hin => ⟨hin.1, hin.2⟩⟩

/-- What is in use behind a sweep. -/
lemma inUse_sweepWith_iff {h : Heap} (marks : Std.HashSet Object) {o : Object} :
    (h.sweepWith marks).InUse o ↔ h.InUse o ∧ o ∈ marks := by
  rw [← Std.HashSet.contains_iff_mem]
  cases o with
  | string i => exact Arena.inUse_sweep_iff h.strings (fun i => marks.contains (.string i)) []
  | table i => exact Arena.inUse_sweep_iff h.tables (fun i => marks.contains (.table i)) .empty
  | userdata i =>
    exact Arena.inUse_sweep_iff h.userdata (fun i => marks.contains (.userdata i)) none
  | env i => exact Arena.inUse_sweep_iff h.envs (fun i => marks.contains (.env i)) (.new none)

end Heap

end ScriptCore
