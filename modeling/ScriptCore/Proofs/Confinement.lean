import Mathlib
import ScriptCore.Proofs.Calls

set_option relaxedAutoImplicit false
set_option autoImplicit false

/-!
# Confinement to the upper part of the stack

An action is confined above a slot, its floor, if it neither reads nor changes what lies below.
This is one equation: replace the slots below the floor by any others, and the action has the same
result and the same effect, with the replaced slots still in place.

## Main definitions

* `ScriptCore.Slots.graft` — a stack with its lower slots replaced.
* `ScriptCore.State.Framed` — the frames lie one above the other within the stack.
* `ScriptCore.State.OffStack` — actions that do not touch the stack at all.
* `ScriptCore.MachineM.Confined` — actions of a machine that stay above a floor.

## Main results

* `ScriptCore.MachineM.Confined.get_below` — what is below the floor stays.
* `ScriptCore.Request.local_answer` — a request for something of its own frame is confined to it.
-/

namespace ScriptCore

/-! ## Replacing the lower slots -/

namespace Slots

/-- The slots below `b` of another stack, and the others of this one. -/
def graft (s : Slots) (b : Nat) (low : Slots) : Slots :=
  ⟨Vector.ofFn fun i => if i.val < b then low.get i else s.get i⟩

lemma get_graft (s : Slots) (b : Nat) (low : Slots) (i : Nat) :
    (s.graft b low).get i = if i < b then low.get i else s.get i := by
  by_cases hi : i < stackLimit
  · simp [get, graft, hi]
  · simp [get, hi]

lemma get_graft_of_le (s : Slots) {b : Nat} (low : Slots) {i : Nat} (h : b ≤ i) :
    (s.graft b low).get i = s.get i := by
  rw [get_graft, if_neg (by omega)]

@[simp]
lemma graft_self (s : Slots) (b : Nat) : s.graft b s = s :=
  ext_get fun i => by rw [get_graft, ite_self]

lemma set_graft (s : Slots) {b : Nat} (low : Slots) {i : Nat} (v : Value) (h : b ≤ i) :
    (s.graft b low).set i v = (s.set i v).graft b low := by
  refine ext_get fun j => ?_
  rw [get_set, get_graft, get_graft, get_set]
  by_cases hj : j < b
  · rw [if_pos hj, if_pos hj, if_neg (by omega)]
  · rw [if_neg hj, if_neg hj]

lemma fill_graft (s : Slots) {b : Nat} (low : Slots) (n : Nat) {i : Nat} (h : b ≤ i) :
    (s.graft b low).fill n i = (s.fill n i).graft b low := by
  induction n generalizing i s with
  | zero => rfl
  | succ n ih => rw [fill, fill, set_graft s low _ h, ih _ (by omega)]

lemma moveDown_graft (s : Slots) {b : Nat} (low : Slots) (n : Nat) {src dst : Nat} (hs : b ≤ src)
    (hd : b ≤ dst) : (s.graft b low).moveDown n src dst = (s.moveDown n src dst).graft b low := by
  induction n generalizing src dst s with
  | zero => rfl
  | succ n ih =>
    rw [moveDown, moveDown, get_graft_of_le s low hs, set_graft s low _ hd,
      ih _ (by omega) (by omega)]

lemma moveUp_graft (s : Slots) {b : Nat} (low : Slots) (n : Nat) {i : Nat} (h : b ≤ i) :
    (s.graft b low).moveUp n i = (s.moveUp n i).graft b low := by
  induction n generalizing s with
  | zero => rfl
  | succ n ih =>
    rw [moveUp, moveUp, get_graft_of_le s low (by omega), set_graft s low _ (by omega), ih]

end Slots

namespace State

/-- A state with the slots below `b` replaced. -/
def graft (s : State) (b : Nat) (low : Slots) : State := s.withStack (s.stack.graft b low)

@[simp]
lemma graft_self (s : State) (b : Nat) : s.graft b s.stack = s := by
  rw [graft, Slots.graft_self, withStack_self]

section Graft

variable (s : State) (b : Nat) (low : Slots)

-- these are not left to unfolding, which would compare the replaced slots one by one

@[simp]
lemma top_graft : (s.graft b low).top = s.top := by rw [graft, top_withStack]

@[simp]
lemma frames_graft : (s.graft b low).frames = s.frames := by rw [graft, frames_withStack]

@[simp]
lemma base_graft : (s.graft b low).base = s.base := by rw [graft, base_withStack]

@[simp]
lemma stack_graft : (s.graft b low).stack = s.stack.graft b low := by rw [graft, stack_withStack]

@[simp]
lemma heap_graft : (s.graft b low).heap = s.heap := by rw [graft, heap_withStack]

@[simp]
lemma size_graft : (s.graft b low).size = s.size := by rw [size, size, top_graft, base_graft]

@[simp]
lemma slot?_graft (index : Int) : (s.graft b low).slot? index = s.slot? index := by
  rw [slot?, slot?, base_graft, top_graft, size_graft]

@[simp]
lemma newTop_graft (index : Int) : (s.graft b low).newTop index = s.newTop index := by
  rw [newTop, newTop, base_graft, top_graft]

@[simp]
lemma withTop_graft (n : Nat) : (s.graft b low).withTop n = (s.withTop n).graft b low := by
  rw [graft, graft, stack_withTop, withStack_withTop]

@[simp]
lemma withStack_graft (stack : Slots) :
    (s.graft b low).withStack (stack.graft b low) = (s.withStack stack).graft b low := by
  rw [graft, graft, stack_withStack, withStack_withStack, withStack_withStack]

/-- What is apart from the slots is read from a grafted state as from the state itself. -/
lemma read_graft {α : Type} {f : State → α} (h : ∀ s stack, f (s.withStack stack) = f s) :
    f (s.graft b low) = f s := h s _

lemma coerceNumber_graft (v : Value) : (s.graft b low).coerceNumber v = s.coerceNumber v :=
  read_graft (f := fun s => s.coerceNumber v) s b low fun _ _ => rfl

lemma bytes?_graft (v : Value) : (s.graft b low).bytes? v = s.bytes? v :=
  read_graft (f := fun s => s.bytes? v) s b low fun _ _ => rfl

lemma badArgument_graft (index : Int) (message : String) :
    (s.graft b low).badArgument index message = s.badArgument index message :=
  read_graft (f := fun s => s.badArgument index message) s b low fun _ _ => rfl

end Graft

lemma dropped_graft (s : State) {b : Nat} (low : Slots) (h : b ≤ s.top - 1) :
    (s.graft b low).dropped = s.dropped.graft b low := by
  rw [dropped, dropped, stack_graft, top_graft, Slots.set_graft _ _ _ h, withStack_graft,
    withTop_graft]

lemma clear_graft (s : State) {b : Nat} (low : Slots) {lo : Nat} (hi : Nat) (h : b ≤ lo) :
    (s.graft b low).clear lo hi = (s.clear lo hi).graft b low := by
  rw [graft, graft, stack_clear, clear_withStack, Slots.fill_graft _ _ _ h]

lemma valueAt_graft {s : State} (h : s.base ≤ s.top) (low : Slots) (index : Int) :
    (s.graft s.base low).valueAt index = s.valueAt index := by
  unfold valueAt
  rw [slot?_graft, stack_graft]
  cases hi : s.slot? index with
  | none => rfl
  | some i => exact s.stack.get_graft_of_le low (slot?_mem hi h).1

/-- The frames lie one above the other, and the values of the innermost one within the stack. -/
structure Framed (s : State) : Prop where
  increasing : s.frames.Pairwise fun inner outer => outer.base < inner.base
  base_le : s.base ≤ s.top
  top_le : s.top ≤ stackLimit

/-! ## Actions apart from the stack -/

/-- An action that does not touch the stack: it does the same whatever the slots hold, and leaves
them, the top and the frames as they are. -/
structure OffStack {α : Type} (x : Action α) : Prop where
  top : ∀ s, (x s).2.top = s.top
  frames : ∀ s, (x s).2.frames = s.frames
  withStack : ∀ s stack, x (s.withStack stack) = ((x s).1, (x s).2.withStack stack)

namespace OffStack

variable {α β : Type}

lemma stack {x : Action α} (h : OffStack x) (s : State) : (x s).2.stack = s.stack := by
  have hx := h.withStack s s.stack
  rw [withStack_self] at hx
  rw [hx]
  rfl

lemma pure (a : α) : OffStack (pure a : Action α) := ⟨fun _ => rfl, fun _ => rfl, fun _ _ => rfl⟩

lemma throw (e : RuntimeError) : OffStack (throw e : Action α) :=
  ⟨fun _ => rfl, fun _ => rfl, fun _ _ => rfl⟩

lemma bind {x : Action α} {f : α → Action β} (hx : OffStack x) (hf : ∀ a, OffStack (f a)) :
    OffStack (x >>= f) where
  top s := by
    rw [bind_apply, ← hx.top s]
    rcases x s with ⟨_ | a, s'⟩
    · rfl
    · exact (hf a).top s'
  frames s := by
    rw [bind_apply, ← hx.frames s]
    rcases x s with ⟨_ | a, s'⟩
    · rfl
    · exact (hf a).frames s'
  withStack s stack := by
    rw [bind_apply, bind_apply, hx.withStack s stack]
    rcases x s with ⟨_ | a, s'⟩
    · rfl
    · exact (hf a).withStack s' stack

/-- What is done on a state may depend on everything in it but the slots. -/
lemma get_bind {f : State → Action β} (hf : ∀ s, OffStack (f s))
    (h : ∀ s stack, f (s.withStack stack) = f s) : OffStack (get >>= f) where
  top s := (hf s).top s
  frames s := (hf s).frames s
  withStack s stack := by
    rw [bind_apply, bind_apply, get_apply, get_apply, andThen_ok, andThen_ok, h]
    exact (hf s).withStack s stack

lemma read {f : State → α} (h : ∀ s stack, f (s.withStack stack) = f s) :
    OffStack (do return f (← get)) :=
  get_bind (fun _ => .pure _) fun s stack => by rw [h]

lemma ite {c : Prop} [Decidable c] {x y : Action α} (hx : OffStack x) (hy : OffStack y) :
    OffStack (if c then x else y) := by
  split
  · exact hx
  · exact hy

end OffStack

lemma offStack_onHeap {α : Type} (f : Heap → Except RuntimeError α × Heap) :
    OffStack (onHeap f) := ⟨fun _ => rfl, fun _ => rfl, fun _ _ => rfl⟩

lemma offStack_internBytes (content : List UInt8) : OffStack (internBytes content) :=
  internBytes_eq content ▸ offStack_onHeap _

lemma offStack_intern (text : String) : OffStack (intern text) := offStack_internBytes _

lemma offStack_newTable (size : Nat) : OffStack (newTable size) :=
  newTable_eq size ▸ offStack_onHeap _

lemma offStack_rawSet (t key value : Value) : OffStack (rawSet t key value) :=
  rawSet_eq t key value ▸ offStack_onHeap _

lemma offStack_setMetatable (v metatable : Value) : OffStack (setMetatable v metatable) :=
  setMetatable_eq v metatable ▸ offStack_onHeap _

lemma offStack_getGlobal (name : String) : OffStack (getGlobal name) :=
  (offStack_intern name).bind fun _ => .read fun _ _ => rfl

lemma offStack_setGlobal (name : String) (value : Value) : OffStack (setGlobal name value) :=
  (offStack_intern name).bind fun key =>
    .get_bind (fun s => offStack_rawSet (.table s.globals) key value) fun _ _ => rfl

lemma offStack_registryGet (name : String) : OffStack (registryGet name) :=
  (offStack_intern name).bind fun _ => .read fun _ _ => rfl

lemma offStack_loadedTable : OffStack loadedTable :=
  (offStack_registryGet loadedKey).bind fun _ => .ite (.pure _) <|
    (offStack_newTable 16).bind fun loaded => (offStack_intern loadedKey).bind fun key =>
      .get_bind (fun s => (offStack_rawSet (.table s.registry) key loaded).bind fun _ => .pure _)
        fun _ _ => rfl

lemma offStack_findTable (library : String) (size : Nat) (parts : List String) (current : Value) :
    OffStack (findTable library size parts current) := by
  induction parts generalizing current with
  | nil => exact .pure _
  | cons part rest ih =>
    refine (offStack_intern part).bind fun key => .get_bind (fun s => ?_) fun _ _ => rfl
    refine .ite ?_ (.ite (ih _) (.throw _))
    exact (offStack_newTable _).bind fun table =>
      (offStack_rawSet current key table).bind fun _ => ih _

end State

/-! ## Confined actions of a machine -/

variable {σ α β : Type}

/-- A machine with the slots below `b` replaced. -/
def Machine.graft (m : Machine σ) (b : Nat) (low : Slots) : Machine σ :=
  m.withState (m.state.graft b low)

@[simp]
lemma Machine.state_graft (m : Machine σ) (b : Nat) (low : Slots) :
    (m.graft b low).state = m.state.graft b low := by
  rw [graft, state_withState]

lemma Machine.graft_self (m : Machine σ) (b : Nat) : m.graft b m.state.stack = m := by
  rw [graft, State.graft_self]
  rfl

namespace MachineM

/-- From the machine `m`, the action stays above the slot `floor`: it leaves the frames as they
are, does not lower the top below the floor nor raise it above the limit, and **neither reads nor
changes a slot below the floor** — whatever is put there, its result and its effect are the
same, and what was put there is still there. -/
structure Confined (floor : Nat) (x : MachineM σ α) (m : Machine σ) : Prop where
  frames : (x m).2.state.frames = m.state.frames
  floor_le : floor ≤ (x m).2.state.top
  top_le : (x m).2.state.top ≤ stackLimit
  graft : ∀ low, x (m.graft floor low) = ((x m).1, (x m).2.graft floor low)

namespace Confined

variable {floor : Nat} {x : MachineM σ α} {m : Machine σ}

/-- **The slots below the floor stay as they are.** -/
lemma get_below (h : Confined floor x m) {i : Nat} (hi : i < floor) :
    (x m).2.state.stack.get i = m.state.stack.get i := by
  have hg := h.graft m.state.stack
  rw [Machine.graft_self] at hg
  rw [hg]
  exact (Slots.get_graft _ _ _ _).trans (if_pos hi)

lemma base (h : Confined floor x m) : (x m).2.state.base = m.state.base := by
  rw [State.base, h.frames, State.base]

/-- The frames stay one above the other. -/
lemma framed (h : Confined floor x m) (hm : m.state.Framed) (hf : m.state.base ≤ floor) :
    (x m).2.state.Framed where
  increasing := h.frames ▸ hm.increasing
  base_le := h.base ▸ hf.trans h.floor_le
  top_le := h.top_le

/-- An action that is confined above a slot is confined above every lower one. -/
lemma mono (h : Confined floor x m) {floor' : Nat} (hf : floor' ≤ floor) : Confined floor' x m where
  frames := h.frames
  floor_le := hf.trans h.floor_le
  top_le := h.top_le
  graft low := by
    -- the slots between the two floors are replaced by themselves
    have hsplit : ∀ n : Machine σ, (∀ i < floor, n.state.stack.get i = m.state.stack.get i) →
        n.graft floor' low = n.graft floor (m.state.stack.graft floor' low) := by
      intro n hn
      have hstack : n.state.stack.graft floor' low =
          n.state.stack.graft floor (m.state.stack.graft floor' low) := by
        refine Slots.ext_get fun i => ?_
        simp only [Slots.get_graft]
        by_cases hi : i < floor
        · rw [if_pos hi, hn i hi]
        · rw [if_neg hi, if_neg (by omega)]
      rw [Machine.graft, State.graft, hstack]
      rfl
    rw [hsplit m fun _ _ => rfl, h.graft, hsplit (x m).2 fun _ hi => h.get_below hi]

lemma pure (a : α) (hfloor : floor ≤ m.state.top) (htop : m.state.top ≤ stackLimit) :
    Confined floor (pure a : MachineM σ α) m :=
  ⟨rfl, hfloor, htop, fun _ => rfl⟩

lemma throw (e : RuntimeError) (hfloor : floor ≤ m.state.top) (htop : m.state.top ≤ stackLimit) :
    Confined floor (throw e : MachineM σ α) m :=
  ⟨rfl, hfloor, htop, fun _ => rfl⟩

/-- A sequence is confined if its parts are. -/
lemma bind {f : α → MachineM σ β} (h : Confined floor x m)
    (hf : ∀ a n, x m = (.ok a, n) → floor ≤ n.state.top → n.state.top ≤ stackLimit →
      Confined floor (f a) n) : Confined floor (x >>= f) m := by
  have hgraft := h.graft
  obtain ⟨hframes, hfloor, htop, -⟩ := h
  constructor <;> simp only [bind_apply, hgraft]
  all_goals
    rcases hr : x m with ⟨_ | a, n⟩
    all_goals
      rw [hr] at hframes hfloor htop
      simp only [andThen_ok, andThen_error]
  · exact hframes
  · exact (hf a n hr hfloor htop).frames.trans hframes
  · exact hfloor
  · exact (hf a n hr hfloor htop).floor_le
  · exact htop
  · exact (hf a n hr hfloor htop).top_le
  · exact fun _ => trivial
  · exact (hf a n hr hfloor htop).graft

/-- Confinement is about what an action does from a machine and its grafts only. -/
lemma congr {y : MachineM σ α} (h : Confined floor y m) (hxy : x m = y m)
    (hg : ∀ low, x (m.graft floor low) = y (m.graft floor low)) : Confined floor x m where
  frames := hxy ▸ h.frames
  floor_le := hxy ▸ h.floor_le
  top_le := hxy ▸ h.top_le
  graft low := by rw [hg, h.graft, hxy]

/-- An action on the state is confined if it is on the state of the machine. -/
lemma of_lift {x : Action α} (hframes : (x m.state).2.frames = m.state.frames)
    (hfloor : floor ≤ (x m.state).2.top) (htop : (x m.state).2.top ≤ stackLimit)
    (hgraft : ∀ low, x (m.state.graft floor low) =
      ((x m.state).1, (x m.state).2.graft floor low)) :
    Confined floor (lift x) m := by
  refine ⟨by rw [lift_apply]; exact hframes, by rw [lift_apply]; exact hfloor,
    by rw [lift_apply]; exact htop, fun low => ?_⟩
  rw [lift_apply, lift_apply, Machine.graft, Machine.state_withState, hgraft]
  rfl

lemma offStack {x : Action α} (hx : State.OffStack x) (hfloor : floor ≤ m.state.top)
    (htop : m.state.top ≤ stackLimit) : Confined floor (lift x) m := by
  refine of_lift (hx.frames _) ((hx.top _).symm ▸ hfloor) ((hx.top _).symm ▸ htop) fun low => ?_
  rw [State.graft, hx.withStack, State.graft, hx.stack]

lemma push (v : Value) (hfloor : floor ≤ m.state.top) (htop : m.state.top ≤ stackLimit) :
    Confined floor (lift (State.push v)) m := by
  by_cases hfull : stackLimit ≤ m.state.top
  · refine of_lift ?_ ?_ ?_ fun low => ?_ <;>
      simp only [State.push_apply, State.top_graft, hfull, ↓reduceIte]
    · exact hfloor
    · exact htop
  · refine of_lift ?_ ?_ ?_ fun low => ?_ <;>
      simp only [State.push_apply, State.top_graft, hfull, ↓reduceIte, State.frames_withTop,
        State.frames_withStack, State.top_withTop]
    · omega
    · omega
    · rw [State.stack_graft, Slots.set_graft _ _ _ hfloor, State.withStack_graft,
        State.withTop_graft]

end Confined

/-- An action that is confined to the frame it is done in. -/
def Local (x : MachineM σ α) : Prop := ∀ m : Machine σ, m.state.Framed → Confined m.state.base x m

lemma Local.bind {x : MachineM σ α} {f : α → MachineM σ β} (hx : Local x)
    (hf : ∀ a, Local (f a)) : Local (x >>= f) := by
  intro m hm
  have h := hx m hm
  refine h.bind fun a n hr _ _ => ?_
  have hbase := h.base
  have hframed := h.framed hm le_rfl
  rw [hr] at hbase hframed
  exact hbase ▸ hf a n hframed

/-- An action on the state is confined to the frame if it is on framed states. -/
lemma local_lift {x : Action α}
    (h : ∀ s, s.Framed → (x s).2.frames = s.frames ∧ s.base ≤ (x s).2.top ∧
      (x s).2.top ≤ stackLimit ∧ ∀ low, x (s.graft s.base low) = ((x s).1, (x s).2.graft s.base low)) :
    Local (lift x : MachineM σ α) := by
  intro m hm
  obtain ⟨hframes, hbase, htop, hgraft⟩ := h m.state hm
  exact .of_lift hframes hbase htop hgraft

lemma local_offStack {x : Action α} (h : State.OffStack x) : Local (lift x : MachineM σ α) :=
  fun _ hm => .offStack h hm.base_le hm.top_le

lemma local_read {f : State → α}
    (h : ∀ s : State, s.Framed → ∀ low, f (s.graft s.base low) = f s) :
    Local (lift (do return f (← get)) : MachineM σ α) :=
  local_lift fun s hs => ⟨rfl, hs.base_le, hs.top_le, fun low => by
    simp only [bind_apply, get_apply, andThen_ok, pure_apply, h s hs low]⟩

/-! ## The operations on the stack -/

lemma local_push (v : Value) : Local (lift (State.push v) : MachineM σ Unit) :=
  fun _ hm => .push v hm.base_le hm.top_le

lemma local_pop : Local (lift State.pop : MachineM σ Value) := by
  refine local_lift fun s hs => ?_
  have htop := hs.top_le
  simp only [State.pop_apply, State.top_graft, State.base_graft]
  by_cases hbase : s.top ≤ s.base
  · simp only [hbase, ↓reduceIte]
    exact ⟨trivial, hs.base_le, htop, fun _ => trivial⟩
  · simp only [hbase, ↓reduceIte, State.stack_graft]
    refine ⟨rfl, ?_, ?_, fun low => ?_⟩
    · rw [State.dropped, State.top_withTop]
      omega
    · rw [State.dropped, State.top_withTop]
      omega
    · rw [Slots.get_graft_of_le _ _ (by omega), State.dropped_graft _ _ (by omega)]

lemma local_slot (index : Int) : Local (lift (State.slot index) : MachineM σ Nat) := by
  refine local_lift fun s hs => ?_
  simp only [State.slot_apply, State.slot?_graft]
  cases s.slot? index <;> exact ⟨rfl, hs.base_le, hs.top_le, fun _ => rfl⟩

lemma local_remove (index : Int) : Local (lift (State.remove index) : MachineM σ Value) := by
  refine local_lift fun s hs => ?_
  have htop := hs.top_le
  simp only [State.remove_apply, State.slot?_graft]
  cases hi : s.slot? index with
  | none => exact ⟨rfl, hs.base_le, htop, fun _ => rfl⟩
  | some i =>
    obtain ⟨hbi, hit⟩ := State.slot?_mem hi hs.base_le
    simp only [State.frames_withTop, State.frames_withStack, State.top_withTop, State.stack_graft,
      State.top_graft]
    refine ⟨trivial, by omega, by omega, fun low => ?_⟩
    rw [Slots.get_graft_of_le _ _ hbi, Slots.moveDown_graft _ _ _ (by omega) hbi,
      Slots.set_graft _ _ _ (by omega), State.withStack_graft, State.withTop_graft]

lemma local_replace (index : Int) : Local (lift (State.replace index) : MachineM σ Unit) := by
  refine local_lift fun s hs => ?_
  have htop := hs.top_le
  simp only [State.replace_apply, State.slot?_graft]
  cases hi : s.slot? index with
  | none => exact ⟨rfl, hs.base_le, htop, fun _ => rfl⟩
  | some i =>
    obtain ⟨hbi, hit⟩ := State.slot?_mem hi hs.base_le
    have hdropped : s.dropped.top = s.top - 1 := rfl
    simp only [State.top_graft, State.base_graft, State.stack_graft,
      show ¬ s.top ≤ s.base by omega, ↓reduceIte]
    by_cases hlt : i < s.top - 1
    · simp only [hlt, ↓reduceIte, State.frames_withStack, State.top_withStack]
      refine ⟨rfl, by omega, by omega, fun low => ?_⟩
      rw [State.dropped_graft _ _ (by omega), State.stack_graft, Slots.get_graft_of_le _ _ (by omega),
        Slots.set_graft _ _ _ hbi, State.withStack_graft]
    · simp only [hlt, ↓reduceIte]
      refine ⟨rfl, by omega, by omega, fun low => ?_⟩
      rw [State.dropped_graft _ _ (by omega)]

lemma local_insert (index : Int) : Local (lift (State.insert index) : MachineM σ Unit) := by
  refine local_lift fun s hs => ?_
  simp only [State.insert_apply, State.slot?_graft]
  cases hi : s.slot? index with
  | none => exact ⟨rfl, hs.base_le, hs.top_le, fun _ => rfl⟩
  | some i =>
    obtain ⟨hbi, hit⟩ := State.slot?_mem hi hs.base_le
    simp only [State.frames_withStack, State.top_withStack, State.stack_graft, State.top_graft]
    refine ⟨trivial, hs.base_le, hs.top_le, fun low => ?_⟩
    rw [Slots.get_graft_of_le _ _ (by omega), Slots.moveUp_graft _ _ _ hbi,
      Slots.set_graft _ _ _ hbi, State.withStack_graft]

lemma local_setTop (index : Int) : Local (lift (State.setTop index) : MachineM σ Unit) := by
  refine local_lift fun s hs => ?_
  have hbase := hs.base_le
  simp only [State.setTop_apply, State.size_graft, State.newTop_graft, State.top_graft]
  by_cases hbad : index < 0 ∧ s.size < index.natAbs - 1
  · simp only [hbad, and_self, ↓reduceIte]
    exact ⟨trivial, hbase, hs.top_le, fun _ => trivial⟩
  have hnew := State.base_le_newTop hbad hbase
  by_cases hover : stackLimit < s.newTop index
  · simp only [hbad, hover, ↓reduceIte]
    exact ⟨trivial, hbase, hs.top_le, fun _ => trivial⟩
  · simp only [hbad, hover, ↓reduceIte, State.frames_withTop, State.frames_clear, State.top_withTop]
    refine ⟨trivial, hnew, by omega, fun low => ?_⟩
    rw [State.clear_graft _ _ _ (by omega), State.withTop_graft]

/-- An action that goes on with something it reads of its frame. -/
lemma local_of_read {γ : Type} {g : State → γ} {f : γ → Action α} {x : Action α}
    (hx : ∀ s, x s = f (g s) s)
    (hg : ∀ s : State, s.Framed → ∀ low, g (s.graft s.base low) = g s)
    (hf : ∀ c, Local (lift (f c) : MachineM σ α)) : Local (lift x : MachineM σ α) := by
  intro m hm
  have hlift : ∀ n : Machine σ, lift x n = lift (f (g n.state)) n := fun n => by
    rw [lift_apply, lift_apply, hx]
  have h := hf (g m.state) m hm
  refine ⟨?_, ?_, ?_, fun low => ?_⟩
  · rw [hlift]
    exact h.frames
  · rw [hlift]
    exact h.floor_le
  · rw [hlift]
    exact h.top_le
  · rw [hlift, hlift, Machine.state_graft, hg m.state hm low]
    exact h.graft low

lemma local_ofExcept (r : Except RuntimeError α) :
    Local (lift (MonadExcept.ofExcept r) : MachineM σ α) := by
  cases r with
  | ok a => exact local_offStack (.pure a)
  | error e => exact local_offStack (.throw e)

lemma local_onHeap (f : Heap → Except RuntimeError α × Heap) :
    Local (lift (State.onHeap f) : MachineM σ α) :=
  local_offStack (State.offStack_onHeap f)

lemma local_newClosureEnv (index : Int) :
    Local (lift (State.newClosureEnv index) : MachineM σ Unit) := by
  refine local_of_read (g := fun s => s.valueAt index)
    (f := fun v => MonadExcept.ofExcept (State.parentOf v) >>= fun p =>
      State.newEnv p >>= State.push)
    (State.newClosureEnv_apply index) (fun s hs low => State.valueAt_graft hs.base_le low index)
    fun v => ?_
  rw [lift_bind]
  refine (local_ofExcept _).bind fun p => ?_
  rw [lift_bind, State.newEnv_eq]
  exact (local_onHeap _).bind local_push

lemma local_pushCaptured (index : Int) (level slot : Nat) :
    Local (lift (State.pushCaptured index level slot) : MachineM σ Unit) := by
  refine local_of_read (g := fun s => (s.valueAt index, s.heap))
    (f := fun p => MonadExcept.ofExcept (State.envOf p.1) >>= fun e =>
      State.push (p.2.envGet e level slot))
    (State.pushCaptured_apply index level slot)
    (fun s hs low => by rw [State.valueAt_graft hs.base_le, State.heap_graft]) fun p => ?_
  rw [lift_bind]
  exact (local_ofExcept _).bind fun e => local_push _

lemma local_storeCaptured (index : Int) (level slot : Nat) :
    Local (lift (State.storeCaptured index level slot) : MachineM σ Unit) := by
  refine local_of_read (g := fun s => s.valueAt index)
    (f := fun v => MonadExcept.ofExcept (State.envOf v) >>= fun e => State.pop >>= fun w =>
      State.onHeap fun h => (.ok (), h.envSet e level slot w))
    (State.storeCaptured_apply index level slot)
    (fun s hs low => State.valueAt_graft hs.base_le low index) fun v => ?_
  rw [lift_bind]
  refine (local_ofExcept _).bind fun e => ?_
  rw [lift_bind]
  exact local_pop.bind fun w => local_onHeap _

/-! ## Arguments -/

/-- An action that only reads, and only what is in the frame. -/
lemma local_reading {f : State → Except RuntimeError α}
    (hf : ∀ s : State, s.Framed → ∀ low, f (s.graft s.base low) = f s) :
    Local (lift (State.reading f) : MachineM σ α) :=
  local_lift fun s hs => ⟨rfl, hs.base_le, hs.top_le, fun low => by
    rw [State.reading, State.reading, hf s hs low]⟩

lemma local_checkNumber (index : Int) :
    Local (lift (State.checkNumber index) : MachineM σ Binary64) := by
  rw [State.checkNumber_eq]
  refine local_reading fun s hs low => ?_
  rw [State.valueAt_graft hs.base_le, State.coerceNumber_graft, State.badArgument_graft]

lemma local_checkBytes (index : Int) :
    Local (lift (State.checkBytes index) : MachineM σ (List UInt8)) := by
  rw [State.checkBytes_eq]
  refine local_reading fun s hs low => ?_
  rw [State.valueAt_graft hs.base_le, State.bytes?_graft, State.badArgument_graft]

lemma local_checkString (index : Int) :
    Local (lift (State.checkString index) : MachineM σ String) := by
  rw [State.checkString, lift_bind]
  refine (local_checkBytes index).bind fun bs => ?_
  cases Text.ofBytes? bs with
  | some text => exact local_offStack (.pure _)
  | none => exact local_offStack (.get_bind (fun _ => .throw _) fun _ _ => rfl)

/-! ## Libraries -/

lemma local_registerLibrary (name : String) (size : Nat) :
    Local (lift (State.registerLibrary name size) : MachineM σ Value) := by
  rw [State.registerLibrary, lift_bind]
  refine (local_offStack State.offStack_loadedTable).bind fun loaded => ?_
  rw [lift_bind]
  refine (local_offStack (State.offStack_intern name)).bind fun key => ?_
  refine local_of_read (g := fun s => (s.rawGet loaded key, s.globals))
    (f := fun p =>
      if p.1.isTable then State.push p.1 >>= fun _ => pure p.1
      else State.findTable name size (State.nameParts name) (.table p.2) >>= fun table =>
        State.rawSet loaded key table >>= fun _ => State.push table >>= fun _ => pure table)
    (fun s => ?_) (fun s hs low => ?_) fun p => ?_
  · simp only [bind_apply, get_apply, andThen_ok, ite_run]
  · exact State.read_graft (f := fun s => (s.rawGet loaded key, s.globals)) s _ low fun _ _ => rfl
  · split
    · rw [lift_bind]
      exact (local_push _).bind fun _ => local_offStack (.pure _)
    · rw [lift_bind]
      refine (local_offStack (State.offStack_findTable ..)).bind fun table => ?_
      rw [lift_bind]
      refine (local_offStack (State.offStack_rawSet ..)).bind fun _ => ?_
      rw [lift_bind]
      exact (local_push _).bind fun _ => local_offStack (.pure _)

end MachineM

/-- The requests a function can make of its own frame: all but those that reach for the whole
stack. -/
def Request.IsLocal : Request → Prop
  | collect | maybeCollect | setSlot .. | reset | inspect => False
  | _ => True

/-- **A request for something of its own frame is confined to the frame.** -/
theorem Request.local_answer {r : Request} (h : r.IsLocal) :
    MachineM.Local (MachineM.lift r.answer : MachineM σ r.Reply) := by
  open MachineM in
  cases r with
  | push v => exact local_push v
  | pop => exact local_pop
  | valueAt index => exact local_read fun s hs low => State.valueAt_graft hs.base_le low index
  | frameSize => exact local_read fun s _ low => s.size_graft _ low
  | remove index => exact local_remove index
  | replace index => exact local_replace index
  | insert index => exact local_insert index
  | setTop index => exact local_setTop index
  | slotOf index => exact local_slot index
  | checkNumber index => exact local_checkNumber index
  | checkString index => exact local_checkString index
  | checkBytes index => exact local_checkBytes index
  | newClosureEnv index => exact local_newClosureEnv index
  | pushCaptured index level slot => exact local_pushCaptured index level slot
  | storeCaptured index level slot => exact local_storeCaptured index level slot
  | registerLibrary name size => exact local_registerLibrary name size
  | upvalue | currentName | coerceNumber | bytes | rawGet | metafield | envGet =>
    exact local_offStack (.read fun _ _ => rfl)
  | raise | refuse => exact local_offStack (.get_bind (fun _ => .throw _) fun _ _ => rfl)
  | intern content => exact local_offStack (State.offStack_internBytes content)
  | newTable size => exact local_offStack (State.offStack_newTable size)
  | rawSet t key value => exact local_offStack (State.offStack_rawSet t key value)
  | getGlobal name => exact local_offStack (State.offStack_getGlobal name)
  | setGlobal name value => exact local_offStack (State.offStack_setGlobal name value)
  | registryGet name => exact local_offStack (State.offStack_registryGet name)
  | setMetatable v metatable => exact local_offStack (State.offStack_setMetatable v metatable)
  | newUserdata | newEnv | envSet | setStress | trace | sweep =>
    exact local_offStack ⟨fun _ => rfl, fun _ => rfl, fun _ _ => rfl⟩
  | collect | maybeCollect | setSlot | reset | inspect => exact h.elim

end ScriptCore
