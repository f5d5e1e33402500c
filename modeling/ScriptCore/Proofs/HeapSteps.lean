import ScriptCore.Proofs.Allocation
import ScriptCore.Proofs.Running

set_option relaxedAutoImplicit false
set_option autoImplicit false

/-!
# Actions in steps of the heap

Most of what a machine does to its heap is making strings, tables and objects of the host and writing
to tables and metatables. What holds between a heap and the one behind each of these steps, holds
between the heaps before and behind all actions that are made of them.

## Main definitions

* `ScriptCore.Heap.Steady` — relations that hold along these steps.
* `ScriptCore.State.Keeps` — actions along which a relation holds.
-/

namespace ScriptCore

/-- **A steady relation** between a heap and what becomes of it: it holds along the steps on strings,
tables and objects of the host, and along sequences. -/
class Heap.Steady (R : Heap → Heap → Prop) : Prop where
  refl : ∀ h, R h h
  trans : ∀ {h h' h''}, R h h' → R h' h'' → R h h''
  intern : ∀ h content, R h (h.intern content).2
  newTable : ∀ h size, R h (h.newTable size).2
  newUserdata : ∀ h payload metatable, R h (h.newUserdata payload metatable).2
  modifyTable : ∀ (h : Heap) i f, R h { h with tables := h.tables.modify i f }
  modifyUserdata : ∀ (h : Heap) i f, R h { h with userdata := h.userdata.modify i f }

/-- A change of metatable is a write to its table or its object of the host. -/
lemma Heap.Steady.setMetatable? {R : Heap → Heap → Prop} [Steady R] {h h' : Heap} {v : Value}
    {metatable : Option Nat} (hset : h.setMetatable? v metatable = some h') : R h h' := by
  unfold Heap.setMetatable? at hset
  split at hset
  · obtain ⟨t, -, rfl⟩ := Option.map_eq_some_iff.1 hset
    rw [Arena.set_eq_modify]
    exact modifyTable h _ _
  · obtain ⟨u, -, rfl⟩ := Option.map_eq_some_iff.1 hset
    rw [Arena.set_eq_modify]
    exact modifyUserdata h _ _
  · cases hset

namespace State

variable {α β : Type} {R : Heap → Heap → Prop}

/-- A relation holds between the heaps before and behind an action. -/
def Keeps (R : Heap → Heap → Prop) (x : Action α) : Prop := ∀ s : State, R s.heap (x s).2.heap

namespace Keeps

lemma onHeap {f : Heap → Except RuntimeError α × Heap} (hf : ∀ h, R h (f h).2) :
    Keeps R (onHeap f) := fun s => hf s.heap

variable [Heap.Steady R]

/-- An action that does not touch the heap. -/
lemma of_heap {x : Action α} (h : ∀ s, (x s).2.heap = s.heap) : Keeps R x := fun s => by
  rw [h s]
  exact Heap.Steady.refl s.heap

lemma pure (a : α) : Keeps R (pure a : Action α) := of_heap fun _ => rfl

lemma throw (e : RuntimeError) : Keeps R (throw e : Action α) := of_heap fun _ => rfl

lemma reading (f : State → Except RuntimeError α) : Keeps R (reading f) := of_heap fun _ => rfl

lemma bind {x : Action α} {f : α → Action β} (hx : Keeps R x) (hf : ∀ a, Keeps R (f a)) :
    Keeps R (x >>= f) := fun s => by
  have hs := hx s
  rw [bind_apply]
  rcases hxs : x s with ⟨_ | a, t⟩ <;> rw [hxs] at hs
  · exact hs
  · exact Heap.Steady.trans hs (hf a t)

omit [Heap.Steady R] in
/-- What is done on a state may depend on it. -/
lemma get_bind {f : State → Action β} (hf : ∀ s, Keeps R (f s)) : Keeps R (get >>= f) :=
  fun s => hf s s

lemma read (f : State → α) : Keeps R (do return f (← get)) := get_bind fun _ => .pure _

omit [Heap.Steady R] in
lemma ite {c : Prop} [Decidable c] {x y : Action α} (hx : Keeps R x) (hy : Keeps R y) :
    Keeps R (if c then x else y) := by
  split
  · exact hx
  · exact hy

/-! ## The stack -/

lemma push (v : Value) : Keeps R (push v) := of_heap fun s => by
  rw [push_apply]
  split <;> rfl

lemma pop : Keeps R pop := of_heap fun s => by
  rw [pop_apply]
  split <;> rfl

lemma slot (index : Int) : Keeps R (slot index) := of_heap fun s => by
  rw [slot_apply]
  split <;> rfl

lemma remove (index : Int) : Keeps R (remove index) := of_heap fun s => by
  rw [remove_apply]
  split <;> rfl

lemma replace (index : Int) : Keeps R (replace index) := of_heap fun s => by
  rw [replace_apply]
  split
  · split
    · rfl
    · dsimp only
      split <;> rfl
  · rfl

lemma insert (index : Int) : Keeps R (insert index) := of_heap fun s => by
  rw [insert_apply]
  split <;> rfl

lemma setTop (index : Int) : Keeps R (setTop index) := of_heap fun s => by
  rw [setTop_apply]
  split
  · rfl
  · split <;> rfl

lemma checkNumber (index : Int) : Keeps R (checkNumber index) := checkNumber_eq index ▸ reading _

lemma checkBytes (index : Int) : Keeps R (checkBytes index) := checkBytes_eq index ▸ reading _

lemma checkString (index : Int) : Keeps R (checkString index) := by
  refine (checkBytes index).bind fun bs => ?_
  cases Text.ofBytes? bs with
  | some text => exact .pure _
  | none => exact .get_bind fun _ => .throw _

lemma pushCaptured (index : Int) (level slot : Nat) : Keeps R (pushCaptured index level slot) :=
  fun s => by
  rw [pushCaptured_apply]
  exact bind (of_heap fun _ => by rw [ofExcept_apply]) (fun _ => push _) s

/-! ## Strings, tables and objects of the host -/

lemma internBytes (content : List UInt8) : Keeps R (internBytes content) :=
  internBytes_eq content ▸ onHeap fun h => Heap.Steady.intern h content

lemma intern (text : String) : Keeps R (intern text) := internBytes _

lemma newTable (size : Nat) : Keeps R (newTable size) :=
  newTable_eq size ▸ onHeap fun h => Heap.Steady.newTable h size

lemma newUserdata (payload : Nat) (metatable : Value) : Keeps R (newUserdata payload metatable) :=
  newUserdata_eq payload metatable ▸ onHeap fun h => Heap.Steady.newUserdata h payload _

lemma rawSet (t key value : Value) : Keeps R (rawSet t key value) := by
  rw [rawSet_eq]
  refine onHeap fun h => ?_
  split
  · exact Heap.Steady.refl h
  · split
    · split
      · exact Heap.Steady.modifyTable h _ _
      · exact Heap.Steady.refl h
    · exact Heap.Steady.refl h

lemma setMetatable (v metatable : Value) : Keeps R (setMetatable v metatable) := by
  rw [setMetatable_eq]
  refine onHeap fun h => ?_
  split
  · exact Heap.Steady.refl h
  · split
    · next hset => exact Heap.Steady.setMetatable? hset
    · exact Heap.Steady.refl h

lemma getGlobal (name : String) : Keeps R (getGlobal name) := (intern name).bind fun _ => .read _

lemma setGlobal (name : String) (value : Value) : Keeps R (setGlobal name value) :=
  (intern name).bind fun _ => .get_bind fun _ => rawSet _ _ _

lemma registryGet (name : String) : Keeps R (registryGet name) := (intern name).bind fun _ => .read _

/-! ## Libraries -/

lemma loadedTable : Keeps R loadedTable :=
  (registryGet loadedKey).bind fun _ => .ite (.pure _) <|
    (newTable 16).bind fun _ => (intern loadedKey).bind fun _ =>
      .get_bind fun _ => (rawSet _ _ _).bind fun _ => .pure _

lemma findTable (library : String) (size : Nat) (parts : List String) (current : Value) :
    Keeps R (findTable library size parts current) := by
  induction parts generalizing current with
  | nil => exact .pure _
  | cons part rest ih =>
    refine (intern part).bind fun key => .get_bind fun s => .ite ?_ (.ite (ih _) (.throw _))
    exact (newTable _).bind fun table => (rawSet _ _ _).bind fun _ => ih _

lemma registerLibrary (name : String) (size : Nat) : Keeps R (registerLibrary name size) := by
  refine loadedTable.bind fun loaded => (intern name).bind fun key =>
    .get_bind fun s => .ite ((push _).bind fun _ => .pure _) (.get_bind fun s => ?_)
  exact (findTable _ _ _ _).bind fun table => (rawSet _ _ _).bind fun _ => (push _).bind fun _ => .pure _

end Keeps

end State

end ScriptCore
