import Mathlib
import ScriptCore.Proofs.Running

set_option relaxedAutoImplicit false
set_option autoImplicit false

/-!
# The values of a frame as a list

The values of the current frame are a list, the last one being on top. The operations of the stack
do to this list what they are named for: they append to it, take from its end, remove, insert and
replace at a position, and cut or fill it up. An operation that fails changes nothing, and the slots
that are given up are cleared.

## Main definitions

* `ScriptCore.State.view` — the values of the current frame.
* `ScriptCore.OnList` — operations on lists, with `position?` for the meaning of an index.
* `ScriptCore.State.Refines` — an action does to the frame what an operation does to its list.
* `ScriptCore.State.Clears`, `ScriptCore.State.Trimmed` — slots above the top.

## Main results

* `ScriptCore.State.stack_refines_list` — the operations of the stack refine those of lists.
-/

namespace ScriptCore

/-! ## Operations on lists -/

/-- Operations on a list of values that may fail. -/
abbrev OnList (α : Type) := List Value → Except RuntimeError α × List Value

namespace OnList

/-- The position of an index in a list of `n` values. Positive indices count from the first value,
negative ones from the last. -/
def position? (n : Nat) (index : Int) : Option Nat :=
  if 1 ≤ index ∧ index ≤ n then some (index - 1).toNat
  else if -n ≤ index ∧ index ≤ -1 then some (n + index).toNat
  else none

/-- The value of an index; nil if it refers to none. -/
def valueAt (index : Int) (l : List Value) : Value :=
  ((position? l.length index).bind (l[·]?)).getD .nil

/-- Appends a value, if there is room for more than there are. -/
def push (room : Nat) (v : Value) : OnList Unit := fun l =>
  if l.length = room then (.error .stackOverflow, l) else (.ok (), l ++ [v])

/-- Takes the last value. -/
def pop : OnList Value := fun l =>
  match l.getLast? with
  | some v => (.ok v, l.dropLast)
  | none => (.error .stackUnderflow, l)

/-- Takes the value of an index out of the list. -/
def remove (index : Int) : OnList Value := fun l =>
  match position? l.length index with
  | some i => (.ok (l.getD i .nil), l.eraseIdx i)
  | none => (.error (.invalidIndex index), l)

/-- Moves the last value to an index. -/
def insert (index : Int) : OnList Unit := fun l =>
  match position? l.length index with
  | some i => (.ok (), l.dropLast.insertIdx i (l.getLastD .nil))
  | none => (.error (.invalidIndex index), l)

/-- Drops the last value and puts it in place of that of an index, if that is still there. -/
def replace (index : Int) : OnList Unit := fun l =>
  match position? l.length index with
  | some i => (.ok (), l.dropLast.set i (l.getLastD .nil))
  | none => (.error (.invalidIndex index), l)

/-- The length an index asks a list of `n` values to have: itself, or for a negative one that up to
the value it refers to. -/
def newLength (n : Nat) (index : Int) : Int := if 0 ≤ index then index else n + index + 1

/-- Cuts a list to a length, or fills it up with nil. -/
def setTop (room : Nat) (index : Int) : OnList Unit := fun l =>
  let n := newLength l.length index
  if n < 0 then (.error (.invalidIndex index), l)
  else if room < n then (.error .stackOverflow, l)
  else (.ok (), l.takeD n.toNat .nil)

lemma getElem?_takeD (n : Nat) (l : List Value) (v : Value) (i : Nat) :
    (l.takeD n v)[i]? = if i < n then some (l[i]?.getD v) else none := by
  induction n generalizing l i with
  | zero => rfl
  | succ n ih =>
    rw [List.takeD_succ]
    cases i with
    | zero => cases l <;> rfl
    | succ i =>
      rw [List.getElem?_cons_succ, ih, List.getElem?_tail]
      simp only [Nat.succ_lt_succ_iff]

/-- An index is valid if it counts from one of the ends to a value. -/
lemma isSome_position? (n : Nat) (index : Int) :
    (position? n index).isSome ↔ 1 ≤ index ∧ index ≤ n ∨ -n ≤ index ∧ index ≤ -1 := by
  unfold position?
  split
  · next h => simp [h]
  · next h => split <;> next h' => simp [h, h']

lemma position?_lt {n i : Nat} {index : Int} (h : position? n index = some i) : i < n := by
  unfold position? at h
  split at h
  · cases h
    omega
  · split at h <;> cases h
    omega

end OnList

namespace State

variable {α : Type} {s t : State}

/-! ## The values of a frame -/

/-- The values of the current frame, the last one on top. -/
def view (s : State) : List Value := (List.range s.size).map fun i => s.stack.get (s.base + i)

@[simp]
lemma length_view (s : State) : s.view.length = s.size := by
  rw [view, List.length_map, List.length_range]

lemma getElem_view (s : State) {i : Nat} (h : i < s.view.length) :
    s.view[i] = s.stack.get (s.base + i) := by
  simp only [view, List.getElem_map, List.getElem_range]

lemma getElem?_view (s : State) (i : Nat) :
    s.view[i]? = if i < s.size then some (s.stack.get (s.base + i)) else none := by
  split
  · next h => rw [List.getElem?_eq_getElem (by rwa [length_view]), getElem_view]
  · next h => exact List.getElem?_eq_none (by rw [length_view]; omega)

/-- A frame has a list as its view if at each position they have the same value or none. -/
lemma view_eq {l : List Value}
    (h : ∀ i, l[i]? = if i < t.size then some (t.stack.get (t.base + i)) else none) : t.view = l :=
  List.ext_getElem? fun i => by rw [getElem?_view, h]

/-- The last value of the frame is that on top. -/
lemma getLastD_view (h : s.base < s.top) : s.view.getLastD .nil = s.stack.get (s.top - 1) := by
  have hsize : s.size = s.top - s.base := rfl
  rw [List.getLastD_eq_getLast?, List.getLast?_eq_getElem?, length_view, getElem?_view,
    if_pos (by omega), Option.getD_some]
  congr 1
  omega

/-- An index refers to a slot of the frame as it does to a position of the view. -/
lemma slot?_eq_position? (hbase : s.base ≤ s.top) (index : Int) :
    s.slot? index = (OnList.position? s.view.length index).map (s.base + ·) := by
  have hsize : s.size = s.top - s.base := rfl
  rw [length_view, OnList.position?, slot?]
  dsimp only
  by_cases hpos : 0 < index
  · rw [if_pos hpos]
    by_cases hle : index ≤ s.size
    · rw [if_pos (by omega), if_pos (by omega), Option.map_some]
      congr 1
      omega
    · rw [if_neg (by omega), if_neg (by omega), if_neg (by omega), Option.map_none]
  · rw [if_neg hpos, if_neg (by omega : ¬ (1 ≤ index ∧ index ≤ s.size))]
    by_cases hbad : index = 0 ∨ s.size < index.natAbs
    · rw [if_pos hbad, if_neg (by omega), Option.map_none]
    · rw [if_neg hbad, if_pos (by omega), Option.map_some]
      congr 1
      omega

/-- Taking the last value of the frame. -/
lemma pop_view (s : State) :
    OnList.pop s.view = if s.size = 0 then (.error .stackUnderflow, s.view)
      else (.ok (s.stack.get (s.top - 1)), s.view.dropLast) := by
  have hsize : s.size = s.top - s.base := rfl
  rw [OnList.pop, List.getLast?_eq_getElem?, length_view, getElem?_view]
  by_cases hempty : s.size = 0
  · rw [if_pos hempty, if_neg (by omega)]
  · rw [if_neg hempty, if_pos (by omega)]
    dsimp only
    congr 3
    omega

/-! ## Slots above the top -/

/-- All slots from the top on are nil. -/
def Trimmed (s : State) : Prop := ∀ i, s.top ≤ i → s.stack.get i = .nil

/-- What has been given up from one state to another one is cleared: a slot above the top is nil, or
it was above the top before and has not been touched. -/
def Clears (s t : State) : Prop :=
  ∀ i, t.top ≤ i → t.stack.get i = .nil ∨ (s.top ≤ i ∧ t.stack.get i = s.stack.get i)

lemma Clears.refl (s : State) : s.Clears s := fun _ hi => .inr ⟨hi, rfl⟩

lemma Clears.trans {u : State} (hst : s.Clears t) (htu : t.Clears u) : s.Clears u := by
  intro i hi
  rcases htu i hi with hnil | ⟨hti, heq⟩
  · exact .inl hnil
  · rw [heq]
    exact hst i hti

/-- If all slots above the top were nil, they are so afterwards. -/
lemma Clears.trimmed (h : s.Clears t) (hs : s.Trimmed) : t.Trimmed := by
  intro i hi
  rcases h i hi with hnil | ⟨hsi, heq⟩
  · exact hnil
  · rw [heq]
    exact hs i hsi

/-- Clearing slots of the stack breaks nothing. -/
lemma clear_of_le (s : State) (lo : Nat) {hi : Nat} (h : hi ≤ stackLimit) :
    s.clear lo hi = s.withStack (s.stack.fill (hi - lo) lo) := by
  have hbroken : (s.broken || decide (stackLimit < hi)) = s.broken := by
    rw [decide_eq_false (by omega), Bool.or_false]
  rw [clear, hbroken, withStack]

/-- Setting the last value to nil clears what is then above the top. -/
lemma clears_set_last {i : Nat} (hpos : 0 < s.top) (htop : s.top ≤ stackLimit) (hi : s.top - 1 ≤ i) :
    (s.stack.set (s.top - 1) .nil).get i = .nil ∨
      (s.top ≤ i ∧ (s.stack.set (s.top - 1) .nil).get i = s.stack.get i) := by
  rw [Slots.get_set]
  by_cases heq : s.top - 1 = i
  · rw [if_pos (by omega)]
    exact .inl rfl
  · rw [if_neg (by omega)]
    exact .inr ⟨by omega, rfl⟩

/-! ## Refinement -/

/-- From the state `s`, an action does to the frame what an operation on lists does to its view: it
gives the same result and leaves the view that is as the list then. Of the state it changes the
stack and the top only; the top stays within the frame and the limit; the slots below the frame
stay; what is given up is cleared, so that slots above the top stay nil; and a failure changes
nothing. -/
structure Refines (s : State) (x : Action α) (f : OnList α) : Prop where
  result : (x s).1 = (f s.view).1
  view : (x s).2.view = (f s.view).2
  rest : ∃ stack top, (x s).2 = (s.withStack stack).withTop top
  base_le : s.base ≤ (x s).2.top
  top_le : (x s).2.top ≤ stackLimit
  below : ∀ i < s.base, (x s).2.stack.get i = s.stack.get i
  clears : s.Clears (x s).2
  trimmed : s.Trimmed → (x s).2.Trimmed
  unchanged : ∀ e, (x s).1 = .error e → (x s).2 = s

section Operations

variable {f : OnList α} {x : Action α}

/-- An action that fails and changes nothing refines an operation that fails with the same error. -/
lemma Refines.of_error {e : RuntimeError} (hbase : s.base ≤ s.top) (htop : s.top ≤ stackLimit)
    (hx : x s = (.error e, s)) (hf : f s.view = (.error e, s.view)) : s.Refines x f := by
  refine ⟨?_, ?_, ⟨s.stack, s.top, ?_⟩, ?_, ?_, ?_, ?_, ?_, ?_⟩ <;> simp only [hx, hf]
  · rfl
  · exact hbase
  · exact htop
  · exact fun _ _ => trivial
  · exact .refl s
  · exact id
  · exact fun _ _ => trivial

/-- An action that changes stack and top refines an operation if the frame then has the values of
the list, and what is above the top is cleared. -/
lemma Refines.of_ok {a : α} {l : List Value} {stack : Slots} {top : Nat}
    (hx : x s = (.ok a, (s.withStack stack).withTop top)) (hf : f s.view = (.ok a, l))
    (hbase : s.base ≤ top) (htop : top ≤ stackLimit)
    (hview : ∀ i, l[i]? = if i < top - s.base then some (stack.get (s.base + i)) else none)
    (hbelow : ∀ i < s.base, stack.get i = s.stack.get i)
    (hclears : ∀ i, top ≤ i → stack.get i = .nil ∨ (s.top ≤ i ∧ stack.get i = s.stack.get i)) :
    s.Refines x f := by
  have hcleared : s.Clears ((s.withStack stack).withTop top) := hclears
  refine ⟨?_, ?_, ⟨stack, top, ?_⟩, ?_, ?_, ?_, ?_, ?_, ?_⟩ <;> simp only [hx, hf]
  · exact view_eq hview
  · exact hbase
  · exact htop
  · exact hbelow
  · exact hcleared
  · exact hcleared.trimmed
  · exact fun _ h => nomatch h

variable (hbase : s.base ≤ s.top) (htop : s.top ≤ stackLimit)

include hbase htop

/-- A value is appended. -/
lemma refines_push (v : Value) : s.Refines (push v) (OnList.push (stackLimit - s.base) v) := by
  have hsize : s.size = s.top - s.base := rfl
  have hpush := push_apply v s
  have hlist : OnList.push (stackLimit - s.base) v s.view =
      if s.size = stackLimit - s.base then (.error .stackOverflow, s.view)
      else (.ok (), s.view ++ [v]) := by
    rw [OnList.push, length_view]
  by_cases hfull : stackLimit ≤ s.top
  · rw [if_pos hfull] at hpush
    rw [if_pos (by omega)] at hlist
    exact .of_error hbase htop hpush hlist
  · rw [if_neg hfull] at hpush
    rw [if_neg (by omega)] at hlist
    refine .of_ok hpush hlist (by omega) (by omega) (fun i => ?_) (fun i hi => ?_) fun i hi => ?_
    · rw [List.getElem?_append, getElem?_view, length_view, Slots.get_set]
      by_cases hlt : i < s.size
      · rw [if_pos hlt, if_pos hlt, if_pos (by omega), if_neg (by omega)]
      · rw [if_neg hlt]
        by_cases heq : i = s.size
        · rw [if_pos (by omega), if_pos (by omega), heq, Nat.sub_self]
          rfl
        · rw [if_neg (by omega), List.getElem?_eq_none]
          rw [List.length_singleton]
          omega
    · rw [Slots.get_set, if_neg (by omega)]
    · rw [Slots.get_set, if_neg (by omega)]
      exact .inr ⟨by omega, rfl⟩

/-- The last value is taken. -/
lemma refines_pop : s.Refines pop OnList.pop := by
  have hsize : s.size = s.top - s.base := rfl
  have hpop := pop_apply s
  have hlist := pop_view s
  by_cases hempty : s.top ≤ s.base
  · rw [if_pos hempty] at hpop
    rw [if_pos (by omega)] at hlist
    exact .of_error hbase htop hpop hlist
  · rw [if_neg hempty] at hpop
    rw [if_neg (by omega)] at hlist
    refine .of_ok hpop hlist (by omega) (by omega) (fun i => ?_) (fun i hi => ?_) fun i hi => ?_
    · rw [List.getElem?_dropLast, getElem?_view, length_view, Slots.get_set]
      by_cases hlt : i < s.size - 1
      · rw [if_pos hlt, if_pos (by omega), if_pos (by omega), if_neg (by omega)]
      · rw [if_neg hlt, if_neg (by omega)]
    · rw [Slots.get_set, if_neg (by omega)]
    · exact clears_set_last (by omega) htop hi

/-- A value is taken out, and those above it move down. -/
lemma refines_remove (index : Int) : s.Refines (remove index) (OnList.remove index) := by
  have hsize : s.size = s.top - s.base := rfl
  have hremove := remove_apply index s
  have hlist : OnList.remove index s.view = match OnList.position? s.view.length index with
    | some p => (.ok (s.view.getD p .nil), s.view.eraseIdx p)
    | none => (.error (.invalidIndex index), s.view) := rfl
  rw [slot?_eq_position? hbase] at hremove
  cases hp : OnList.position? s.view.length index with
  | none =>
    rw [hp] at hremove hlist
    exact .of_error hbase htop hremove hlist
  | some p =>
    have hlt := OnList.position?_lt hp
    rw [length_view] at hlt
    have hvalue : s.view.getD p .nil = s.stack.get (s.base + p) := by
      rw [List.getD_eq_getElem?_getD, getElem?_view, if_pos hlt, Option.getD_some]
    rw [hp, Option.map_some] at hremove
    rw [hp] at hlist
    dsimp only at hlist
    rw [hvalue] at hlist
    refine .of_ok hremove hlist (by omega) (by omega) (fun i => ?_) (fun i hi => ?_) fun i hi => ?_
    · rw [List.getElem?_eraseIdx, getElem?_view, getElem?_view, Slots.get_set,
        Slots.get_moveDown _ _ _ _ _ (by omega) (by omega)]
      by_cases hi : i < s.size - 1
      · rw [if_pos (by omega : i < s.top - 1 - s.base)]
        by_cases hip : i < p
        · rw [if_pos hip, if_pos (by omega), if_neg (by omega), if_neg (by omega)]
        · rw [if_neg hip, if_pos (by omega), if_neg (by omega), if_pos (by omega)]
          congr 2
          omega
      · rw [if_neg (by omega), if_neg (by omega), if_neg (by omega)]
    · rw [Slots.get_set, Slots.get_moveDown _ _ _ _ _ (by omega) (by omega), if_neg (by omega),
        if_neg (by omega)]
    · rw [Slots.get_set, Slots.get_moveDown _ _ _ _ _ (by omega) (by omega)]
      by_cases heq : s.top - 1 = i
      · rw [if_pos (by omega)]
        exact .inl rfl
      · rw [if_neg (by omega), if_neg (by omega)]
        exact .inr ⟨by omega, rfl⟩

/-- The last value moves to a position, and those from there on move up. -/
lemma refines_insert (index : Int) : s.Refines (insert index) (OnList.insert index) := by
  have hsize : s.size = s.top - s.base := rfl
  have hinsert := insert_apply index s
  have hlist : OnList.insert index s.view = match OnList.position? s.view.length index with
    | some p => (.ok (), s.view.dropLast.insertIdx p (s.view.getLastD .nil))
    | none => (.error (.invalidIndex index), s.view) := rfl
  rw [slot?_eq_position? hbase] at hinsert
  cases hp : OnList.position? s.view.length index with
  | none =>
    rw [hp] at hinsert hlist
    exact .of_error hbase htop hinsert hlist
  | some p =>
    have hlt := OnList.position?_lt hp
    rw [length_view] at hlt
    have hinsert : insert index s = (.ok (), (s.withStack ((s.stack.moveUp (s.top - 1 - (s.base + p))
        (s.base + p)).set (s.base + p) (s.stack.get (s.top - 1)))).withTop s.top) := by
      rw [hinsert, hp]
      rfl
    rw [hp] at hlist
    dsimp only at hlist
    rw [getLastD_view (by omega)] at hlist
    refine .of_ok hinsert hlist hbase htop (fun i => ?_) (fun i hi => ?_) fun i hi => ?_
    · rw [List.getElem?_insertIdx, List.getElem?_dropLast, List.getElem?_dropLast,
        List.length_dropLast, getElem?_view, getElem?_view, length_view, Slots.get_set,
        Slots.get_moveUp _ _ _ _ (by omega)]
      by_cases hi : i < s.size
      · rw [if_pos (by omega : i < s.top - s.base)]
        by_cases hip : i < p
        · rw [if_pos hip, if_pos (by omega), if_pos hi, if_neg (by omega), if_neg (by omega)]
        · by_cases heq : i = p
          · rw [if_neg hip, if_pos heq, if_pos (by omega), if_pos (by omega)]
          · rw [if_neg hip, if_neg heq, if_pos (by omega), if_pos (by omega), if_neg (by omega),
              if_pos (by omega)]
            congr 2
            omega
      · rw [if_neg (by omega), if_neg (by omega), if_neg (by omega), if_neg (by omega)]
    · rw [Slots.get_set, Slots.get_moveUp _ _ _ _ (by omega), if_neg (by omega), if_neg (by omega)]
    · rw [Slots.get_set, Slots.get_moveUp _ _ _ _ (by omega), if_neg (by omega), if_neg (by omega)]
      exact .inr ⟨hi, rfl⟩

/-- The last value is dropped, and put at a position if there is one still. -/
lemma refines_replace (index : Int) : s.Refines (replace index) (OnList.replace index) := by
  have hsize : s.size = s.top - s.base := rfl
  have hreplace := replace_apply index s
  have hlist : OnList.replace index s.view = match OnList.position? s.view.length index with
    | some p => (.ok (), s.view.dropLast.set p (s.view.getLastD .nil))
    | none => (.error (.invalidIndex index), s.view) := rfl
  rw [slot?_eq_position? hbase] at hreplace
  cases hp : OnList.position? s.view.length index with
  | none =>
    rw [hp] at hreplace hlist
    exact .of_error hbase htop hreplace hlist
  | some p =>
    have hlt := OnList.position?_lt hp
    rw [length_view] at hlt
    have hput : ∀ stack, s.dropped.withStack stack = (s.withStack stack).withTop (s.top - 1) :=
      fun _ => rfl
    rw [hp, Option.map_some] at hreplace
    dsimp only at hreplace
    rw [if_neg (by omega), hput] at hreplace
    rw [hp] at hlist
    dsimp only at hlist
    rw [getLastD_view (by omega)] at hlist
    by_cases hlast : s.base + p < s.top - 1
    · rw [if_pos hlast] at hreplace
      refine .of_ok hreplace hlist (by omega) (by omega) (fun i => ?_) (fun i hi => ?_) fun i hi => ?_
      · rw [List.getElem?_set, List.length_dropLast, List.getElem?_dropLast, length_view,
          getElem?_view, Slots.get_set, dropped, stack_withTop, stack_withStack, Slots.get_set]
        by_cases hi : i < s.size - 1
        · rw [if_pos (by omega : i < s.top - 1 - s.base)]
          by_cases heq : p = i
          · rw [if_pos heq, if_pos (by omega), if_pos (by omega)]
          · rw [if_neg heq, if_pos hi, if_pos (by omega), if_neg (by omega), if_neg (by omega)]
        · rw [if_neg (by omega), if_neg hi, if_neg (by omega)]
      · rw [Slots.get_set, if_neg (by omega), dropped, stack_withTop, stack_withStack, Slots.get_set,
          if_neg (by omega)]
      · rw [Slots.get_set, if_neg (by omega)]
        exact clears_set_last (by omega) htop hi
    · rw [if_neg hlast] at hreplace
      refine .of_ok hreplace hlist (by omega) (by omega) (fun i => ?_) (fun i hi => ?_) fun i hi => ?_
      · rw [List.getElem?_set, List.length_dropLast, List.getElem?_dropLast, length_view,
          getElem?_view, Slots.get_set]
        by_cases hi : i < s.size - 1
        · rw [if_pos (by omega : i < s.top - 1 - s.base), if_neg (by omega), if_pos hi,
            if_pos (by omega), if_neg (by omega)]
        · rw [if_neg (by omega : ¬ i < s.top - 1 - s.base), if_neg hi]
          split
          · rw [if_neg (by omega)]
          · rfl
      · rw [Slots.get_set, if_neg (by omega)]
      · exact clears_set_last (by omega) htop hi

/-- The frame is cut, or filled up with nil. -/
lemma refines_setTop (index : Int) :
    s.Refines (setTop index) (OnList.setTop (stackLimit - s.base) index) := by
  have hsize : s.size = s.top - s.base := rfl
  have hset := setTop_apply index s
  have hlist : OnList.setTop (stackLimit - s.base) index s.view =
      let n := OnList.newLength s.size index
      if n < 0 then (.error (.invalidIndex index), s.view)
      else if ((stackLimit - s.base : Nat) : Int) < n then (.error .stackOverflow, s.view)
      else (.ok (), s.view.takeD n.toNat .nil) := by
    rw [OnList.setTop, length_view]
  have hlength : OnList.newLength s.size index =
      if 0 ≤ index then index else s.size + index + 1 := rfl
  have hnew : s.newTop index =
      if 0 ≤ index then s.base + index.toNat else s.top - (index.natAbs - 1) := rfl
  by_cases hbad : index < 0 ∧ s.size < index.natAbs - 1
  · rw [if_pos hbad] at hset
    rw [if_pos (by omega)] at hlist
    exact .of_error hbase htop hset hlist
  · rw [if_neg hbad] at hset
    rw [if_neg (by omega)] at hlist
    have htop' : s.newTop index = s.base + (OnList.newLength s.size index).toNat := by
      rw [hnew, hlength]
      split <;> omega
    by_cases hover : stackLimit < s.newTop index
    · rw [if_pos hover] at hset
      rw [if_pos (by omega)] at hlist
      exact .of_error hbase htop hset hlist
    · rw [if_neg hover, clear_of_le _ _ (by omega)] at hset
      rw [if_neg (by omega)] at hlist
      refine .of_ok hset hlist (by omega) (by omega) (fun i => ?_) (fun i hi => ?_) fun i hi => ?_
      · rw [OnList.getElem?_takeD, getElem?_view, Slots.get_fill, htop', Nat.add_sub_cancel_left]
        by_cases hi : i < (OnList.newLength s.size index).toNat
        · rw [if_pos hi, if_pos hi]
          congr 1
          by_cases hlt : i < s.size
          · rw [if_pos hlt, if_neg (by omega)]
            rfl
          · rw [if_neg hlt, if_pos (by omega)]
            rfl
        · rw [if_neg hi, if_neg hi]
      · rw [Slots.get_fill, if_neg (by omega)]
      · rw [Slots.get_fill]
        by_cases hlt : i < s.top
        · rw [if_pos (by omega)]
          exact .inl rfl
        · rw [if_neg (by omega)]
          exact .inr ⟨by omega, rfl⟩

omit htop in
/-- The value of an index is that of the list. -/
lemma valueAt_eq_view (index : Int) : s.valueAt index = OnList.valueAt index s.view := by
  rw [valueAt, OnList.valueAt, slot?_eq_position? hbase]
  cases hp : OnList.position? s.view.length index with
  | none => rfl
  | some p =>
    have hlt := OnList.position?_lt hp
    rw [length_view] at hlt
    rw [Option.map_some, Option.bind_some, getElem?_view, if_pos hlt]
    rfl

end Operations

/-- **The stack of a frame refines a list.** Take any state with its frame within the stack, and the
view of it, the list of the values of the frame. An index, whatever it is, refers to a slot exactly
when it counts from one of the ends to a value of the view; the value of an index is that of the
list, and nil if there is none. Pushing appends, and fails exactly when the stack is full; popping
takes the last value, removing and inserting close and open a gap, replacing drops the last value
and puts it at a position, and setting the top cuts the list or fills it up. -/
theorem stack_refines_list (hbase : s.base ≤ s.top) (htop : s.top ≤ stackLimit) :
    (∀ index : Int, (s.slot? index).isSome ↔
      1 ≤ index ∧ index ≤ s.view.length ∨ -(s.view.length : Int) ≤ index ∧ index ≤ -1) ∧
    (∀ index, s.valueAt index = OnList.valueAt index s.view) ∧
    (∀ v, s.Refines (push v) (OnList.push (stackLimit - s.base) v) ∧
      ((push v s).1 = .error .stackOverflow ↔ s.top = stackLimit)) ∧
    s.Refines pop OnList.pop ∧
    (∀ index, s.Refines (remove index) (OnList.remove index)) ∧
    (∀ index, s.Refines (insert index) (OnList.insert index)) ∧
    (∀ index, s.Refines (replace index) (OnList.replace index)) ∧
    ∀ index, s.Refines (setTop index) (OnList.setTop (stackLimit - s.base) index) := by
  refine ⟨fun index => ?_, valueAt_eq_view hbase, fun v => ⟨refines_push hbase htop v, ?_⟩,
    refines_pop hbase htop, refines_remove hbase htop, refines_insert hbase htop,
    refines_replace hbase htop, refines_setTop hbase htop⟩
  · rw [slot?_eq_position? hbase, Option.isSome_map, OnList.isSome_position?]
  · rw [push_apply]
    by_cases hfull : stackLimit ≤ s.top
    · rw [if_pos hfull]
      exact ⟨fun _ => le_antisymm htop hfull, fun _ => rfl⟩
    · rw [if_neg hfull]
      exact ⟨fun h => (nomatch h), fun h => absurd h.ge hfull⟩

/-- A stack of four values, the last three of them in a frame. -/
def fourValues : State :=
  ((new.withStack (((Slots.empty.set 0 (.bool false)).set 1 (.bool true)).set 3
    (.bool false))).withTop 4).enterFrame ⟨1, none⟩

/-- In the frame `[true, nil, false]`, the last value moves to the place of the one before it. -/
theorem fourValues_refines :
    fourValues.base ≤ fourValues.top ∧ fourValues.top ≤ stackLimit ∧
      fourValues.view = [.bool true, .nil, .bool false] ∧
      (insert (-2) fourValues).1 = .ok () ∧
      (insert (-2) fourValues).2.view = [.bool true, .bool false, .nil] := by
  have hbase : fourValues.base ≤ fourValues.top := by
    rw [fourValues, base_enterFrame, top_enterFrame, top_withTop]
    decide
  have htop : fourValues.top ≤ stackLimit := by
    rw [fourValues, top_enterFrame, top_withTop]
    decide
  have hview : fourValues.view = [.bool true, .nil, .bool false] := by
    simp only [view, size, fourValues, base_enterFrame, top_enterFrame, top_withTop, stack_enterFrame,
      stack_withTop, stack_withStack, Slots.get_set]
    decide
  have h := (stack_refines_list hbase htop).2.2.2.2.2.1 (-2)
  exact ⟨hbase, htop, hview, by rw [h.result, hview]; rfl, by rw [h.view, hview]; rfl⟩

end State

end ScriptCore
