import Mathlib
import ScriptCore.Machine.Run

set_option relaxedAutoImplicit false
set_option autoImplicit false

/-!
# Running actions

What an action does on a state, operation by operation: a sequence goes on with the value of its
first part or stops with its error, and each operation on the heap and on the stack has a closed
form.

## Main definitions

* `ScriptCore.andThen` — going on behind an outcome.
* `ScriptCore.State.onHeap` — actions on the heap.

## Main results

* `ScriptCore.bind_apply` — sequences.
* `ScriptCore.State.rawSet_eq`, `ScriptCore.State.setMetatable_eq` — actions on the heap in closed
  form.
* `ScriptCore.State.push_apply`, `ScriptCore.State.pop_apply`, `ScriptCore.State.remove_apply` and
  others — actions on the stack in closed form.
-/

namespace ScriptCore

/-! ## Sequences -/

section Sequences

variable {ε τ α β : Type}

/-- Goes on with the value of an outcome, or stops with its error. -/
def andThen (r : Except ε α × τ) (f : α → τ → Except ε β × τ) : Except ε β × τ :=
  match r with
  | (.ok a, s) => f a s
  | (.error e, s) => (.error e, s)

@[simp]
lemma andThen_ok (a : α) (s : τ) (f : α → τ → Except ε β × τ) : andThen (.ok a, s) f = f a s :=
  rfl

@[simp]
lemma andThen_error (e : ε) (s : τ) (f : α → τ → Except ε β × τ) :
    andThen (.error e, s) f = (.error e, s) := rfl

@[simp]
lemma bind_apply (x : ExceptT ε (StateM τ) α) (f : α → ExceptT ε (StateM τ) β) (s : τ) :
    (x >>= f) s = andThen (x s) f := by
  unfold andThen
  simp only [bind, ExceptT.bind, ExceptT.mk, StateT.bind]
  rcases (x s : Except ε α × τ) with ⟨_ | a, c'⟩ <;> rfl

@[simp]
lemma pure_apply (a : α) (s : τ) : (pure a : ExceptT ε (StateM τ) α) s = (.ok a, s) := rfl

@[simp]
lemma throw_apply (e : ε) (s : τ) : (throw e : ExceptT ε (StateM τ) α) s = (.error e, s) := rfl

@[simp]
lemma get_apply (s : τ) : (get : ExceptT ε (StateM τ) τ) s = (.ok s, s) := rfl

@[simp]
lemma set_apply (s s' : τ) : (set s' : ExceptT ε (StateM τ) PUnit) s = (.ok ⟨⟩, s') := rfl

@[simp]
lemma modify_apply (f : τ → τ) (s : τ) :
    (modify f : ExceptT ε (StateM τ) PUnit) s = (.ok ⟨⟩, f s) := rfl

@[simp]
lemma modifyGet_apply (f : τ → α × τ) (s : τ) :
    (modifyGet f : ExceptT ε (StateM τ) α) s = (.ok (f s).1, (f s).2) := rfl

@[simp]
lemma ofExcept_apply (r : Except ε α) (s : τ) :
    (MonadExcept.ofExcept r : ExceptT ε (StateM τ) α) s = (r, s) := by
  cases r <;> rfl

@[simp]
lemma map_apply (f : α → β) (x : ExceptT ε (StateM τ) α) (s : τ) :
    (f <$> x) s = andThen (x s) fun a s' => (.ok (f a), s') := by
  rw [map_eq_pure_bind]
  exact bind_apply x _ s

@[simp]
lemma ite_run (c : Prop) [Decidable c] (x y : ExceptT ε (StateM τ) α) (s : τ) :
    (if c then x else y) s = if c then x s else y s := by
  split <;> rfl

end Sequences

/-! ## Actions on the heap -/

namespace State

variable {α : Type}

/-- The action that does something to the heap and leaves the rest of the state as it is. -/
def onHeap (f : Heap → Except RuntimeError α × Heap) : Action α := fun s =>
  ((f s.heap).1, { s with heap := (f s.heap).2 })

lemma internBytes_eq (content : List UInt8) :
    internBytes content = onHeap fun h => (.ok (.string (h.intern content).1), (h.intern content).2) :=
  rfl

lemma newTable_eq (size : Nat) :
    newTable size = onHeap fun h => (.ok (.table (h.newTable size).1), (h.newTable size).2) := rfl

lemma newUserdata_eq (payload : Nat) (metatable : Value) :
    newUserdata payload metatable = onHeap fun h =>
      (.ok (.userdata (h.newUserdata payload metatable.table?).1),
        (h.newUserdata payload metatable.table?).2) := rfl

lemma newEnv_eq (parent : Option Nat) :
    newEnv parent = onHeap fun h => (.ok (.env (h.newEnv parent).1), (h.newEnv parent).2) := rfl

/-- Setting a key is an action on the heap: it fails for a bad key or what is no table, and changes
one table otherwise. -/
lemma rawSet_eq (t key value : Value) :
    rawSet t key value = onHeap fun h =>
      if isKey key = false then (.error (.typeMismatch .badKey), h)
      else match t.table? with
        | some i =>
          if i < h.tables.items.size then
            (.ok (), { h with tables := h.tables.modify i (·.set key value) })
          else (.error (.typeMismatch (.notTable t.typeName)), h)
        | none => (.error (.typeMismatch (.notTable t.typeName)), h) := by
  funext s
  unfold rawSet onHeap
  cases isKey key <;> cases ht : t.table?
  · rfl
  · rfl
  · rfl
  · next i => by_cases hi : i < s.heap.tables.items.size <;> simp [hi]

/-- Setting a metatable is an action on the heap. -/
lemma setMetatable_eq (v metatable : Value) :
    setMetatable v metatable = onHeap fun h =>
      if metatable.isNil = false ∧ metatable.isTable = false then
        (.error (.typeMismatch .badMetatable), h)
      else match h.setMetatable? v metatable.table? with
        | some h' => (.ok (), h')
        | none => (.error (.typeMismatch (.noMetatable v.typeName)), h) := by
  funext s
  unfold setMetatable onHeap
  cases metatable.isNil <;> cases metatable.isTable <;>
    cases hh : s.heap.setMetatable? v metatable.table? <;> simp [hh]

end State

/-! ## Actions on the stack -/

namespace State

/-- A state with another stack. -/
def withStack (s : State) (stack : Slots) : State := { s with stack }

/-- A state with another top. -/
def withTop (s : State) (top : Nat) : State := { s with top }

section Fields

variable (s : State) (stack : Slots) (n : Nat)

@[simp]
lemma top_withStack : (s.withStack stack).top = s.top := rfl

@[simp]
lemma stack_withStack : (s.withStack stack).stack = stack := rfl

@[simp]
lemma frames_withStack : (s.withStack stack).frames = s.frames := rfl

@[simp]
lemma base_withStack : (s.withStack stack).base = s.base := rfl

@[simp]
lemma heap_withStack : (s.withStack stack).heap = s.heap := rfl

@[simp]
lemma natives_withStack : (s.withStack stack).natives = s.natives := rfl

lemma withStack_self : s.withStack s.stack = s := rfl

@[simp]
lemma withStack_withStack (stack' : Slots) :
    (s.withStack stack).withStack stack' = s.withStack stack' := rfl

lemma addNative_withStack (name : String) (upvalues : Array Value) :
    (s.withStack stack).addNative name upvalues =
      ((s.addNative name upvalues).1, (s.addNative name upvalues).2.withStack stack) := rfl

@[simp]
lemma withStack_withTop : (s.withTop n).withStack stack = (s.withStack stack).withTop n := rfl

@[simp]
lemma withTop_withTop (n' : Nat) : (s.withTop n).withTop n' = s.withTop n' := rfl

@[simp]
lemma top_withTop : (s.withTop n).top = n := rfl

@[simp]
lemma stack_withTop : (s.withTop n).stack = s.stack := rfl

@[simp]
lemma frames_withTop : (s.withTop n).frames = s.frames := rfl

@[simp]
lemma base_withTop : (s.withTop n).base = s.base := rfl

@[simp]
lemma heap_withTop : (s.withTop n).heap = s.heap := rfl

@[simp]
lemma natives_withTop : (s.withTop n).natives = s.natives := rfl

end Fields

/-- The state without the value on top. -/
def dropped (s : State) : State :=
  (s.withStack (s.stack.set (s.top - 1) .nil)).withTop (s.top - 1)

lemma push_apply (v : Value) (s : State) :
    push v s = if stackLimit ≤ s.top then (.error .stackOverflow, s)
      else (.ok (), (s.withStack (s.stack.set s.top v)).withTop (s.top + 1)) := by
  simp only [push, bind_apply, get_apply, andThen_ok, ite_run, throw_apply, andThen_error, set_apply]
  rfl

lemma pop_apply (s : State) :
    pop s = if s.top ≤ s.base then (.error .stackUnderflow, s)
      else (.ok (s.stack.get (s.top - 1)), s.dropped) := by
  simp only [pop, bind_apply, get_apply, andThen_ok, ite_run, throw_apply, andThen_error, set_apply,
    pure_apply]
  rfl

lemma slot_apply (index : Int) (s : State) :
    slot index s = match s.slot? index with
      | some i => (.ok i, s)
      | none => (.error (.invalidIndex index), s) := by
  simp only [slot, bind_apply, get_apply, andThen_ok]
  cases s.slot? index <;> rfl

lemma remove_apply (index : Int) (s : State) :
    remove index s = match s.slot? index with
      | some i => (.ok (s.stack.get i), (s.withStack
          ((s.stack.moveDown (s.top - (i + 1)) (i + 1) i).set (s.top - 1) .nil)).withTop (s.top - 1))
      | none => (.error (.invalidIndex index), s) := by
  simp only [remove, bind_apply, slot_apply]
  cases s.slot? index <;> rfl

lemma replace_apply (index : Int) (s : State) :
    replace index s = match s.slot? index with
      | some i =>
        if s.top ≤ s.base then (.error .stackUnderflow, s)
        else (.ok (), if i < s.top - 1 then
          s.dropped.withStack (s.dropped.stack.set i (s.stack.get (s.top - 1))) else s.dropped)
      | none => (.error (.invalidIndex index), s) := by
  simp only [replace, bind_apply, slot_apply]
  cases s.slot? index with
  | none => rfl
  | some i =>
    simp only [andThen_ok, bind_apply, pop_apply]
    split <;> rfl

lemma insert_apply (index : Int) (s : State) :
    insert index s = match s.slot? index with
      | some i => (.ok (), s.withStack
          ((s.stack.moveUp (s.top - 1 - i) i).set i (s.stack.get (s.top - 1))))
      | none => (.error (.invalidIndex index), s) := by
  simp only [insert, bind_apply, slot_apply]
  cases s.slot? index <;> rfl

/-- The top a frame gets from its size or a negative index. -/
def newTop (s : State) (index : Int) : Nat :=
  if 0 ≤ index then s.base + index.toNat else s.top - (index.natAbs - 1)

lemma setTop_apply (index : Int) (s : State) :
    setTop index s =
      if index < 0 ∧ s.size < index.natAbs - 1 then (.error (.invalidIndex index), s)
      else if stackLimit < s.newTop index then (.error .stackOverflow, s)
      else (.ok (), (s.clear (min (s.newTop index) s.top) (max (s.newTop index) s.top)).withTop
        (s.newTop index)) := by
  simp only [setTop, newTop, bind_apply, get_apply, andThen_ok, ite_run, throw_apply, andThen_error,
    set_apply]
  rfl

/-- The slot of an index lies in the frame. -/
lemma slot?_mem {s : State} {index : Int} {i : Nat} (h : s.slot? index = some i)
    (hs : s.base ≤ s.top) : s.base ≤ i ∧ i < s.top := by
  have hsize : s.size = s.top - s.base := rfl
  by_cases hpos : 0 < index
  · rw [slot?, if_pos hpos] at h
    dsimp only at h
    split at h <;> cases h
    omega
  · rw [slot?, if_neg hpos] at h
    split at h <;> cases h
    omega

lemma base_le_newTop {s : State} {index : Int}
    (h : ¬ (index < 0 ∧ s.size < index.natAbs - 1)) (hs : s.base ≤ s.top) :
    s.base ≤ s.newTop index := by
  simp only [newTop, size] at *
  split <;> omega

/-! ## Actions on captured variables -/

/-- The environment a value must be. -/
def envOf (v : Value) : Except RuntimeError Nat :=
  match v.env? with
  | some e => .ok e
  | none => .error (.typeMismatch (.notEnv v.typeName))

/-- The parent a value stands for: none if it is nil, and an environment otherwise. -/
def parentOf (v : Value) : Except RuntimeError (Option Nat) :=
  if v.isNil then .ok none else (envOf v).map some

lemma envHandle_eq (v : Value) : envHandle v = MonadExcept.ofExcept (envOf v) := by
  unfold envHandle envOf
  cases v.env? <;> rfl

lemma newClosureEnv_apply (index : Int) (s : State) :
    newClosureEnv index s =
      (MonadExcept.ofExcept (parentOf (s.valueAt index)) >>= fun p => newEnv p >>= push) s := by
  simp only [newClosureEnv, bind_apply, get_apply, andThen_ok, ite_run, pure_apply, map_apply,
    ofExcept_apply, parentOf, envHandle_eq]
  split
  · rfl
  · cases envOf (s.valueAt index) <;> rfl

lemma pushCaptured_apply (index : Int) (level slot : Nat) (s : State) :
    pushCaptured index level slot s =
      (MonadExcept.ofExcept (envOf (s.valueAt index)) >>= fun e =>
        push (s.heap.envGet e level slot)) s := by
  simp only [pushCaptured, bind_apply, get_apply, andThen_ok, ofExcept_apply, envHandle_eq]
  cases envOf (s.valueAt index) <;> rfl

lemma storeCaptured_apply (index : Int) (level slot : Nat) (s : State) :
    storeCaptured index level slot s =
      (MonadExcept.ofExcept (envOf (s.valueAt index)) >>= fun e => pop >>= fun v =>
        onHeap fun h => (.ok (), h.envSet e level slot v)) s := by
  simp only [storeCaptured, bind_apply, get_apply, andThen_ok, ofExcept_apply, envHandle_eq]
  cases envOf (s.valueAt index) with
  | error e => rfl
  | ok e =>
    simp only [andThen_ok, bind_apply]
    rcases pop s with ⟨_ | v, s'⟩ <;> rfl

/-! ## Arguments -/

/-- An action that only reads the state. -/
def reading {α : Type} (f : State → Except RuntimeError α) : Action α := fun s => (f s, s)

lemma checkNumber_eq (index : Int) :
    checkNumber index = reading fun s =>
      match s.coerceNumber (s.valueAt index) with
      | some x => .ok x
      | none => .error
          (s.badArgument index ("number expected, got " ++ (s.valueAt index).typeName)) := by
  funext s
  simp only [checkNumber, bind_apply, get_apply, andThen_ok, reading]
  cases s.coerceNumber (s.valueAt index) <;> rfl

lemma checkBytes_eq (index : Int) :
    checkBytes index = reading fun s =>
      match s.bytes? (s.valueAt index), (s.valueAt index).number? with
      | some bs, _ => .ok bs
      | none, some x => .ok (Text.bytes (showNumber x))
      | none, none => .error
          (s.badArgument index ("string expected, got " ++ (s.valueAt index).typeName)) := by
  funext s
  simp only [checkBytes, bind_apply, get_apply, andThen_ok, reading]
  cases s.bytes? (s.valueAt index) <;> cases (s.valueAt index).number? <;> rfl

/-! ## Frames -/

section FrameFields

variable (s : State) (f : Frame) (stack : Slots)

@[simp]
lemma top_enterFrame : (s.enterFrame f).top = s.top := rfl

@[simp]
lemma stack_enterFrame : (s.enterFrame f).stack = s.stack := rfl

@[simp]
lemma base_enterFrame : (s.enterFrame f).base = f.base := rfl

lemma enterFrame_withStack :
    (s.withStack stack).enterFrame f = (s.enterFrame f).withStack stack := rfl

@[simp]
lemma top_leaveFrame : s.leaveFrame.top = s.top := rfl

@[simp]
lemma stack_leaveFrame : s.leaveFrame.stack = s.stack := rfl

@[simp]
lemma frames_leaveFrame : s.leaveFrame.frames = s.frames.tail := rfl

lemma leaveFrame_withStack :
    (s.withStack stack).leaveFrame = s.leaveFrame.withStack stack := rfl

end FrameFields

/-- Dropping everything from a slot on clears the slots from there and lowers the top. -/
lemma unwind_eq (s : State) (slot : Nat) :
    s.unwind slot = (s.clear slot (max s.top slot)).withTop slot := rfl

section Clear

variable (s : State) (lo hi : Nat)

@[simp]
lemma top_clear : (s.clear lo hi).top = s.top := rfl

@[simp]
lemma stack_clear : (s.clear lo hi).stack = s.stack.fill (hi - lo) lo := rfl

@[simp]
lemma frames_clear : (s.clear lo hi).frames = s.frames := rfl

@[simp]
lemma base_clear : (s.clear lo hi).base = s.base := rfl

@[simp]
lemma heap_clear : (s.clear lo hi).heap = s.heap := rfl

@[simp]
lemma natives_clear : (s.clear lo hi).natives = s.natives := rfl

lemma clear_withStack (stack : Slots) :
    (s.withStack stack).clear lo hi = (s.clear lo hi).withStack (stack.fill (hi - lo) lo) := rfl

end Clear

lemma returnResults_apply (slot produced : Nat) (nresults : Int) (s : State) :
    returnResults slot produced nresults s =
      let n := min produced (s.top - (slot + 1))
      let moved := s.withStack (s.stack.moveDown n (s.top - n) slot)
      let last := slot + kept n nresults
      if stackLimit < last then (.error .stackOverflow, moved)
      else (.ok (), (moved.clear (slot + min n (last - slot)) (max last s.top)).withTop last) := by
  simp only [returnResults, bind_apply, get_apply, andThen_ok, ite_run, set_apply, throw_apply]
  rfl

end State

end ScriptCore
