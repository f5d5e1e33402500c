set_option autoImplicit false

/-!
# Arenas

An arena holds items under indices. Indices that have been released are given out again, the one
released last first; a new index is made only when none is free.

## Main definitions

* `ScriptCore.Arena` — the items and the free indices.
* `ScriptCore.Arena.alloc`, `ScriptCore.Arena.sweep` — giving out and releasing indices.

## Main results

* `ScriptCore.Arena.get?_alloc`, `ScriptCore.Arena.get?_alloc_of_ne` — reading after giving out.
-/

namespace ScriptCore

/-- Items under indices, and the free indices with the one released last first. -/
structure Arena (α : Type) where
  items : Array α
  free : List Nat

namespace Arena

variable {α : Type}

/-- No item. -/
def empty : Arena α := ⟨#[], []⟩

/-- The item of an index. A free index has the item it was released with. -/
def get? (a : Arena α) (i : Nat) : Option α := a.items[i]?

/-- Replaces the item of an index. -/
def set (a : Arena α) (i : Nat) (x : α) : Arena α := { a with items := a.items.setIfInBounds i x }

/-- Changes the item of an index. -/
def modify (a : Arena α) (i : Nat) (f : α → α) : Arena α := { a with items := a.items.modify i f }

/-- Whether an index is free. -/
def isFree (a : Arena α) (i : Nat) : Bool := a.free.contains i

/-- The number of indices in use. -/
def live (a : Arena α) : Nat := a.items.size - a.free.length

/-- Puts an item under a free index, or under a new one if there is none. -/
def alloc (a : Arena α) (x : α) : Nat × Arena α :=
  match a.free with
  | i :: rest => (i, ⟨a.items.setIfInBounds i x, rest⟩)
  | [] => (a.items.size, { a with items := a.items.push x })

/-- The index given out holds the item. -/
theorem get?_alloc (a : Arena α) (x : α) (h : ∀ i ∈ a.free, i < a.items.size) :
    (a.alloc x).2.get? (a.alloc x).1 = some x := by
  unfold alloc get?
  split
  · next i rest hfree =>
    have hi : i < a.items.size := h i (by simp [hfree])
    simp [hi]
  · simp

/-- The items of all other indices stay. -/
theorem get?_alloc_of_ne (a : Arena α) (x : α) {i : Nat} (h : i ≠ (a.alloc x).1) :
    (a.alloc x).2.get? i = a.get? i := by
  unfold alloc get? at *
  split at h
  · simp [Ne.symm h]
  · simp [Array.getElem?_push, h]

/-- The indices in use that are not marked, in ascending order. -/
def unmarked (a : Arena α) (marked : Nat → Bool) : List Nat :=
  (List.range a.items.size).filter fun i => !marked i && !a.isFree i

/-- Releases the indices in use that are not marked, from the lowest to the highest. Their items
are replaced by `blank`. -/
def sweep (a : Arena α) (marked : Nat → Bool) (blank : α) : Arena α :=
  let released := a.unmarked marked
  { items := released.foldl (fun items i => items.setIfInBounds i blank) a.items
    free := released.reverse ++ a.free }

end Arena

end ScriptCore
