import ScriptCore.Value

set_option autoImplicit false

/-!
# The slots of the stack

The stack has a fixed number of slots, each with a value. Reading outside of it gives nil and
writing outside of it changes nothing.

## Main definitions

* `ScriptCore.Slots` — the slots, with `get` and `set`.
* `ScriptCore.Slots.fill`, `ScriptCore.Slots.moveDown`, `ScriptCore.Slots.moveUp` — runs of slots.

## Main results

* `ScriptCore.Slots.get_set` — reading after writing.
-/

namespace ScriptCore

/-- The number of slots of the stack. -/
def stackLimit : Nat := 65536

/-- The slots of the stack. -/
structure Slots where
  cells : Vector Value stackLimit

namespace Slots

/-- All slots nil. -/
def empty : Slots := ⟨Vector.replicate stackLimit .nil⟩

/-- The value of a slot. -/
def get (s : Slots) (i : Nat) : Value :=
  if h : i < stackLimit then s.cells[i] else .nil

/-- Writes a slot. -/
def set (s : Slots) (i : Nat) (v : Value) : Slots := ⟨s.cells.setIfInBounds i v⟩

theorem get_set (s : Slots) (i j : Nat) (v : Value) :
    (s.set i v).get j = if i = j ∧ j < stackLimit then v else s.get j := by
  unfold get set
  by_cases hj : j < stackLimit
  · simp only [hj, ↓reduceDIte, and_true]
    by_cases hij : i = j
    · subst hij; simp
    · simp [hij, Vector.getElem_setIfInBounds_ne]
  · simp [hj]

@[simp]
theorem get_empty (i : Nat) : empty.get i = .nil := by
  unfold get empty; split <;> simp

/-- Two stacks with the same values are the same. -/
theorem ext_get {s t : Slots} (h : ∀ i, s.get i = t.get i) : s = t := by
  obtain ⟨a⟩ := s
  obtain ⟨b⟩ := t
  congr
  ext i hi
  have := h i
  simp only [get, hi, ↓reduceDIte] at this
  rw [this]

/-! ## Runs of slots -/

/-- Writes nil into the `n` slots from `i` on. -/
def fill (n i : Nat) (s : Slots) : Slots :=
  match n with
  | 0 => s
  | n + 1 => fill n (i + 1) (s.set i .nil)

/-- Copies the `n` values from `src` on to the slots from `dst` on, the lowest first. -/
def moveDown (n src dst : Nat) (s : Slots) : Slots :=
  match n with
  | 0 => s
  | n + 1 => moveDown n (src + 1) (dst + 1) (s.set dst (s.get src))

/-- Copies the `n` values from `i` on to the slots one above, the highest first. -/
def moveUp (n i : Nat) (s : Slots) : Slots :=
  match n with
  | 0 => s
  | n + 1 => moveUp n i (s.set (i + n + 1) (s.get (i + n)))

theorem get_fill (n i j : Nat) (s : Slots) :
    (s.fill n i).get j = if i ≤ j ∧ j < i + n then .nil else s.get j := by
  induction n generalizing i s with
  | zero => rw [fill, if_neg (by omega)]
  | succ n ih =>
    rw [fill, ih, get_set]
    have hout : ¬ j < stackLimit → s.get j = .nil := fun h => by simp [get, h]
    by_cases h1 : i + 1 ≤ j ∧ j < i + 1 + n
    · rw [if_pos h1, if_pos (by omega)]
    · rw [if_neg h1]
      by_cases h2 : i = j
      · subst h2
        rw [if_pos (by omega : i ≤ i ∧ i < i + (n + 1))]
        by_cases h3 : i < stackLimit
        · simp [h3]
        · simp [h3, hout h3]
      · rw [if_neg (by omega), if_neg (by omega)]

theorem get_moveDown (n src dst j : Nat) (s : Slots) (hdst : dst ≤ src)
    (hsrc : src + n ≤ stackLimit) :
    (s.moveDown n src dst).get j =
      if dst ≤ j ∧ j < dst + n then s.get (src + (j - dst)) else s.get j := by
  induction n generalizing src dst s with
  | zero => rw [moveDown, if_neg (by omega)]
  | succ n ih =>
    rw [moveDown, ih _ _ _ (by omega) (by omega)]
    by_cases h1 : dst + 1 ≤ j ∧ j < dst + 1 + n
    · rw [if_pos h1, if_pos (by omega), get_set, if_neg (by omega)]
      congr 1; omega
    · rw [if_neg h1, get_set]
      by_cases h2 : dst = j
      · subst h2
        rw [if_pos (by omega), if_pos (by omega)]
        congr 1; omega
      · rw [if_neg (by omega), if_neg (by omega)]

theorem get_moveUp (n i j : Nat) (s : Slots) (h : i + n < stackLimit) :
    (s.moveUp n i).get j =
      if i + 1 ≤ j ∧ j < i + 1 + n then s.get (j - 1) else s.get j := by
  induction n generalizing s with
  | zero => rw [moveUp, if_neg (by omega)]
  | succ n ih =>
    rw [moveUp, ih _ (by omega)]
    by_cases h1 : i + 1 ≤ j ∧ j < i + 1 + n
    · rw [if_pos h1, if_pos (by omega), get_set, if_neg (by omega)]
    · rw [if_neg h1, get_set]
      by_cases h2 : i + n + 1 = j
      · subst h2
        rw [if_pos (by omega), if_pos (by omega)]
        congr 1
      · rw [if_neg (by omega), if_neg (by omega)]

end Slots

end ScriptCore
