import Mathlib
import ScriptCore.Proofs.Tidiness

set_option relaxedAutoImplicit false
set_option autoImplicit false

/-!
# Frames at different places

Two states are alike if they have the same heap and functions, and frames with the same values,
wherever on the stack these frames lie and whatever there is below them. What a function asks for
relative to its frame has the same answer in two such states, and leaves two such states, as long
as there is room on the stack in both.

## Main definitions

* `ScriptCore.State.Agree` — states that are the same apart from the stack.
* `ScriptCore.State.Alike` — states that moreover have the same values in their frames.
* `ScriptCore.State.Relocatable` — actions that cannot tell such states apart.
* `ScriptCore.Request.IsRelative` — requests relative to the frame.

## Main results

* `ScriptCore.Request.relocatable_answer` — requests relative to the frame are relocatable.
-/

namespace ScriptCore

namespace State

/-- Two states are the same apart from the stack and the places of the frames, of which there are as
many. -/
structure Agree (s t : State) : Prop where
  heap : t.heap = s.heap
  natives : t.natives = s.natives
  globals : t.globals = s.globals
  registry : t.registry = s.registry
  stress : t.stress = s.stress
  broken : t.broken = s.broken
  depth : t.frames.length = s.frames.length

/-- Two states agree, with the same function running in frames with the same values, both of them
within the stack. -/
structure Alike (s t : State) : Prop extends Agree s t where
  native : t.frames.head?.bind (·.native) = s.frames.head?.bind (·.native)
  view : t.view = s.view
  bounded : s.Bounded
  bounded' : t.Bounded

variable {s t : State}

namespace Agree

lemma refl (s : State) : s.Agree s := ⟨rfl, rfl, rfl, rfl, rfl, rfl, rfl⟩

lemma symm (h : s.Agree t) : t.Agree s :=
  ⟨h.heap.symm, h.natives.symm, h.globals.symm, h.registry.symm, h.stress.symm, h.broken.symm,
    h.depth.symm⟩

lemma trans {u : State} (h : s.Agree t) (h' : t.Agree u) : s.Agree u :=
  ⟨h'.heap.trans h.heap, h'.natives.trans h.natives, h'.globals.trans h.globals,
    h'.registry.trans h.registry, h'.stress.trans h.stress, h'.broken.trans h.broken,
    h'.depth.trans h.depth⟩

/-- What only the stack and the top are changed of agrees with itself. -/
lemma of_stack (s : State) (stack : Slots) (top : Nat) :
    s.Agree ((s.withStack stack).withTop top) := ⟨rfl, rfl, rfl, rfl, rfl, rfl, rfl⟩

variable (h : s.Agree t)

include h

lemma bytes?_eq (v : Value) : t.bytes? v = s.bytes? v := by
  rw [bytes?, bytes?, h.heap]

lemma coerceNumber_eq (v : Value) : t.coerceNumber v = s.coerceNumber v := by
  rw [coerceNumber, coerceNumber, text?, text?, h.bytes?_eq]

lemma rawGet_eq (table key : Value) : t.rawGet table key = s.rawGet table key := by
  rw [rawGet, rawGet, h.heap]

lemma operatorHandler?_eq (event : String) (operands : List Value) :
    t.operatorHandler? event operands = s.operatorHandler? event operands := by
  have hhandler : t.handler? event = s.handler? event := by
    funext v
    simp only [handler?, classify, h.heap]
  rw [operatorHandler?, operatorHandler?, hhandler]

/-- An operator plans the same on its operands. -/
lemma arithPlan_eq (op : ArithOp) (a b : Value) : t.arithPlan op a b = s.arithPlan op a b := by
  simp only [arithPlan, h.coerceNumber_eq, h.operatorHandler?_eq]

lemma negatePlan_eq (a : Value) : t.negatePlan a = s.negatePlan a := by
  simp only [negatePlan, h.coerceNumber_eq, h.operatorHandler?_eq]

lemma lessEqualPlan_eq (a b : Value) : t.lessEqualPlan a b = s.lessEqualPlan a b := by
  have hcompare : t.compare? a b = s.compare? a b := by
    simp only [compare?, classify, h.heap]
  simp only [lessEqualPlan, hcompare, h.operatorHandler?_eq]

end Agree

namespace Alike

lemma symm (h : s.Alike t) : t.Alike s :=
  ⟨h.toAgree.symm, h.native.symm, h.view.symm, h.bounded', h.bounded⟩

lemma trans {u : State} (h : s.Alike t) (h' : t.Alike u) : s.Alike u :=
  ⟨h.toAgree.trans h'.toAgree, h'.native.trans h.native, h'.view.trans h.view, h.bounded,
    h'.bounded'⟩

/-- States stay alike if the same is done to their heaps. -/
lemma withHeap (h : s.Alike t) (heap : Heap) : Alike { s with heap } { t with heap } :=
  ⟨⟨rfl, h.natives, h.globals, h.registry, h.stress, h.broken, h.depth⟩, h.native, h.view,
    ⟨h.bounded.base_le, h.bounded.top_le⟩, ⟨h.bounded'.base_le, h.bounded'.top_le⟩⟩

lemma withStress (h : s.Alike t) (stress : Bool) : Alike { s with stress } { t with stress } :=
  ⟨⟨h.heap, h.natives, h.globals, h.registry, rfl, h.broken, h.depth⟩, h.native, h.view,
    ⟨h.bounded.base_le, h.bounded.top_le⟩, ⟨h.bounded'.base_le, h.bounded'.top_le⟩⟩

/-- States stay alike if the same function is made in them. -/
lemma addNative (h : s.Alike t) (name : String) (upvalues : Array Value) :
    (t.addNative name upvalues).1 = (s.addNative name upvalues).1 ∧
      (s.addNative name upvalues).2.Alike (t.addNative name upvalues).2 := by
  refine ⟨congrArg (fun l : Array Native => Value.function l.size) h.natives, ⟨⟨h.heap, ?_, h.globals,
    h.registry, h.stress, h.broken, h.depth⟩, h.native, h.view,
    ⟨h.bounded.base_le, h.bounded.top_le⟩, ⟨h.bounded'.base_le, h.bounded'.top_le⟩⟩⟩
  exact congrArg (·.push ⟨name, upvalues⟩) h.natives

/-- Frames of agreeing states with the same values are alike. -/
lemma of_agree {s' t' : State} (h : s.Alike t) (hagree : s'.Agree t') (hs : s'.frames = s.frames)
    (ht : t'.frames = t.frames) (hview : t'.view = s'.view) (hb : s'.Bounded) (hb' : t'.Bounded) :
    s'.Alike t' :=
  ⟨hagree, by rw [hs, ht]; exact h.native, hview, hb, hb'⟩

variable (h : s.Alike t)

include h

lemma size_eq : t.size = s.size := by
  rw [← length_view, h.view, length_view]

lemma valueAt_eq (index : Int) : t.valueAt index = s.valueAt index := by
  rw [valueAt_eq_view h.bounded'.base_le, h.view, valueAt_eq_view h.bounded.base_le]

lemma current?_eq : t.current? = s.current? := by
  rw [current?, current?, h.native, h.natives]

lemma currentName?_eq : t.currentName? = s.currentName? := by
  rw [currentName?, currentName?, h.current?_eq]

lemma upvalue_eq (i : Nat) : t.upvalue i = s.upvalue i := by
  rw [upvalue, upvalue, h.current?_eq]

lemma raised_eq (message : String) : t.raised message = s.raised message := by
  rw [raised, raised, h.currentName?_eq]

lemma badArgument_eq (index : Int) (message : String) :
    t.badArgument index message = s.badArgument index message := by
  rw [badArgument, badArgument, h.currentName?_eq]

end Alike

/-! ## Actions -/

/-- An action that has the same result in states that are alike and leaves such states, unless there
is too little room on the stack for it. -/
def Relocatable {α : Type} (x : Action α) : Prop :=
  ∀ s t : State, s.Alike t → (x s).1 ≠ .error .stackOverflow → (x t).1 ≠ .error .stackOverflow →
    (x t).1 = (x s).1 ∧ (x s).2.Alike (x t).2

namespace Relocatable

variable {α β : Type}

lemma pure (a : α) : Relocatable (pure a) := fun _ _ h _ _ => ⟨rfl, h⟩

lemma throw (e : RuntimeError) : Relocatable (throw e : Action α) := fun _ _ h _ _ => ⟨rfl, h⟩

lemma bind {x : Action α} {f : α → Action β} (hx : Relocatable x) (hf : ∀ a, Relocatable (f a)) :
    Relocatable (x >>= f) := by
  intro s t h hs ht
  have hxst := hx s t h
  rw [bind_apply] at hs ht ⊢
  rw [bind_apply]
  rcases hrs : x s with ⟨e | a, s'⟩ <;> rcases hrt : x t with ⟨e' | a', t'⟩ <;>
    rw [hrs, hrt] at hxst <;> rw [hrs] at hs <;> rw [hrt] at ht
  · obtain ⟨heq, halike⟩ := hxst (fun h => hs (congrArg Except.error (Except.error.inj h)))
      fun h => ht (congrArg Except.error (Except.error.inj h))
    exact ⟨congrArg Except.error (Except.error.inj heq), halike⟩
  · obtain ⟨heq, -⟩ := hxst (fun h => hs (congrArg Except.error (Except.error.inj h)))
      fun h => by cases h
    cases heq
  · obtain ⟨heq, -⟩ := hxst (fun h => by cases h)
      fun h => ht (congrArg Except.error (Except.error.inj h))
    cases heq
  · obtain ⟨heq, halike⟩ := hxst (fun h => by cases h) fun h => by cases h
    cases heq
    exact hf a s' t' halike hs ht

/-- What is done on a state may depend on what alike states share. -/
lemma get_bind {f : State → Action β} (hf : ∀ s t : State, s.Alike t → f t = f s)
    (h : ∀ s, Relocatable (f s)) : Relocatable (get >>= f) := by
  intro s t hst hs ht
  simp only [bind_apply, get_apply, andThen_ok] at hs ht ⊢
  rw [hf s t hst] at ht ⊢
  exact h s s t hst hs ht

lemma read {f : State → α} (hf : ∀ s t : State, s.Alike t → f t = f s) :
    Relocatable (do return f (← get)) :=
  get_bind (fun s t h => by rw [hf s t h]) fun _ => pure _

lemma reading {f : State → Except RuntimeError α} (hf : ∀ s t : State, s.Alike t → f t = f s) :
    Relocatable (reading f) := fun s t h _ _ => ⟨hf s t h, h⟩

lemma ofExcept (r : Except RuntimeError α) : Relocatable (MonadExcept.ofExcept r) := by
  cases r with
  | ok a => exact pure a
  | error e => exact throw e

lemma ite {c : Prop} [Decidable c] {x y : Action α} (hx : Relocatable x) (hy : Relocatable y) :
    Relocatable (if c then x else y) := by
  split
  · exact hx
  · exact hy

/-- An action that goes on with something alike states share. -/
lemma of_apply {γ : Type} {x : Action α} (g : State → γ) (f : γ → Action α)
    (hx : ∀ s, x s = f (g s) s) (hg : ∀ s t : State, s.Alike t → g t = g s)
    (hf : ∀ c, Relocatable (f c)) : Relocatable x := by
  intro s t h hs ht
  rw [hx] at hs ht ⊢
  rw [hx, hg s t h] at ⊢
  rw [hg s t h] at ht
  exact hf _ s t h hs ht

lemma onHeap (f : Heap → Except RuntimeError α × Heap) : Relocatable (onHeap f) := by
  intro s t h _ _
  rw [State.onHeap, State.onHeap, h.heap]
  exact ⟨rfl, h.withHeap _⟩

/-- What refines operations on the list of the frame is relocatable, if these have the same outcome
wherever there is room. -/
lemma of_refines {x : Action α} (f : Nat → OnList α)
    (hx : ∀ s : State, s.Bounded → s.Refines x (f (stackLimit - s.base)))
    (hf : ∀ room room' l, (f room l).1 ≠ .error .stackOverflow →
      (f room' l).1 ≠ .error .stackOverflow → f room' l = f room l) : Relocatable x := by
  intro s t h hs ht
  have hrs := hx s h.bounded
  have hrt := hx t h.bounded'
  rw [hrs.result] at hs
  rw [hrt.result, h.view] at ht
  have heq := hf _ _ _ hs ht
  refine ⟨by rw [hrs.result, hrt.result, h.view, heq], ?_⟩
  obtain ⟨stack, top, hsrest⟩ := hrs.rest
  obtain ⟨stack', top', htrest⟩ := hrt.rest
  refine h.of_agree ?_ (by rw [hsrest]; rfl) (by rw [htrest]; rfl)
    (by rw [hrs.view, hrt.view, h.view, heq])
    ((Tidy.of_refines hrs).bounded le_rfl) ((Tidy.of_refines hrt).bounded le_rfl)
  rw [hsrest, htrest]
  exact ((Agree.of_stack _ _ _).symm.trans h.toAgree).trans (Agree.of_stack _ _ _)

lemma push (v : Value) : Relocatable (push v) := by
  refine of_refines (fun room => OnList.push room v)
    (fun s hs => refines_push hs.base_le hs.top_le v) fun room room' l hs ht => ?_
  simp only [OnList.push] at hs ht ⊢
  split at hs
  · exact absurd rfl hs
  split at ht
  · exact absurd rfl ht
  rw [if_neg ‹_›, if_neg ‹_›]

lemma setTop (index : Int) : Relocatable (setTop index) := by
  refine of_refines (fun room => OnList.setTop room index)
    (fun s hs => refines_setTop hs.base_le hs.top_le index) fun room room' l hs ht => ?_
  simp only [OnList.setTop] at hs ht ⊢
  by_cases hneg : OnList.newLength l.length index < 0
  · rw [if_pos hneg, if_pos hneg]
  rw [if_neg hneg] at hs ht ⊢
  rw [if_neg hneg]
  split at hs
  · exact absurd rfl hs
  split at ht
  · exact absurd rfl ht
  rw [if_neg ‹_›, if_neg ‹_›]

lemma pop : Relocatable pop :=
  of_refines (fun _ => OnList.pop) (fun _ hs => refines_pop hs.base_le hs.top_le)
    fun _ _ _ _ _ => rfl

lemma remove (index : Int) : Relocatable (remove index) :=
  of_refines (fun _ => OnList.remove index) (fun _ hs => refines_remove hs.base_le hs.top_le index)
    fun _ _ _ _ _ => rfl

lemma insert (index : Int) : Relocatable (insert index) :=
  of_refines (fun _ => OnList.insert index) (fun _ hs => refines_insert hs.base_le hs.top_le index)
    fun _ _ _ _ _ => rfl

lemma replace (index : Int) : Relocatable (replace index) :=
  of_refines (fun _ => OnList.replace index)
    (fun _ hs => refines_replace hs.base_le hs.top_le index) fun _ _ _ _ _ => rfl

/-! ### Tables -/

lemma internBytes (content : List UInt8) : Relocatable (internBytes content) :=
  internBytes_eq content ▸ onHeap _

lemma intern (text : String) : Relocatable (intern text) := internBytes _

lemma newTable (size : Nat) : Relocatable (newTable size) := newTable_eq size ▸ onHeap _

lemma rawSet (table key value : Value) : Relocatable (rawSet table key value) :=
  rawSet_eq table key value ▸ onHeap _

lemma setMetatable (v metatable : Value) : Relocatable (setMetatable v metatable) :=
  setMetatable_eq v metatable ▸ onHeap _

lemma newUserdata (payload : Nat) (metatable : Value) : Relocatable (newUserdata payload metatable) :=
  newUserdata_eq payload metatable ▸ onHeap _

lemma newEnv (parent : Option Nat) : Relocatable (newEnv parent) := newEnv_eq parent ▸ onHeap _

lemma getGlobal (name : String) : Relocatable (getGlobal name) :=
  (intern name).bind fun key => read fun s t h => by rw [h.rawGet_eq, h.globals]

lemma setGlobal (name : String) (value : Value) : Relocatable (setGlobal name value) :=
  (intern name).bind fun key => get_bind (fun s t h => by rw [h.globals]) fun _ => rawSet _ _ _

lemma registryGet (name : String) : Relocatable (registryGet name) :=
  (intern name).bind fun key => read fun s t h => by rw [h.rawGet_eq, h.registry]

lemma loadedTable : Relocatable loadedTable :=
  (registryGet loadedKey).bind fun _ => ite (pure _) <|
    (newTable 16).bind fun loaded => (intern loadedKey).bind fun key =>
      get_bind (fun s t h => by rw [h.registry]) fun _ =>
        (rawSet _ key loaded).bind fun _ => pure _

lemma findTable (library : String) (size : Nat) (parts : List String) (current : Value) :
    Relocatable (findTable library size parts current) := by
  induction parts generalizing current with
  | nil => exact pure _
  | cons part rest ih =>
    refine (intern part).bind fun key => get_bind (fun s t h => by rw [h.rawGet_eq]) fun s => ?_
    refine ite ?_ (ite (ih _) (throw _))
    exact (newTable _).bind fun table => (rawSet current key table).bind fun _ => ih _

lemma registerLibrary (name : String) (size : Nat) : Relocatable (registerLibrary name size) := by
  refine loadedTable.bind fun loaded => (intern name).bind fun key =>
    get_bind (fun s t h => by rw [h.rawGet_eq]) fun s => ?_
  refine ite ((push _).bind fun _ => pure _) (get_bind (fun s t h => by rw [h.globals]) fun s => ?_)
  exact (findTable _ _ _ _).bind fun table => (rawSet _ _ _).bind fun _ => (push _).bind fun _ =>
    pure _

/-! ### Captured variables and arguments -/

lemma newClosureEnv (index : Int) : Relocatable (newClosureEnv index) :=
  of_apply (fun s => s.valueAt index)
    (fun v => MonadExcept.ofExcept (parentOf v) >>= fun p => State.newEnv p >>= State.push)
    (newClosureEnv_apply index) (fun _ _ h => h.valueAt_eq index) fun _ =>
      (ofExcept _).bind fun p => (newEnv p).bind push

lemma pushCaptured (index : Int) (level slot : Nat) : Relocatable (pushCaptured index level slot) :=
  of_apply (fun s => (s.valueAt index, s.heap))
    (fun c => MonadExcept.ofExcept (envOf c.1) >>= fun e => State.push (c.2.envGet e level slot))
    (pushCaptured_apply index level slot) (fun s t h => by rw [h.valueAt_eq, h.heap]) fun c =>
      (ofExcept _).bind fun e => push _

lemma storeCaptured (index : Int) (level slot : Nat) :
    Relocatable (storeCaptured index level slot) :=
  of_apply (fun s => s.valueAt index)
    (fun v => MonadExcept.ofExcept (envOf v) >>= fun e => State.pop >>= fun w =>
      State.onHeap fun h => (.ok (), h.envSet e level slot w))
    (storeCaptured_apply index level slot) (fun _ _ h => h.valueAt_eq index) fun _ =>
      (ofExcept _).bind fun _ => pop.bind fun _ => onHeap _

lemma checkNumber (index : Int) : Relocatable (checkNumber index) :=
  checkNumber_eq index ▸ reading fun s t h => by
    rw [h.valueAt_eq, h.coerceNumber_eq, h.badArgument_eq]

lemma checkBytes (index : Int) : Relocatable (checkBytes index) :=
  checkBytes_eq index ▸ reading fun s t h => by
    rw [h.valueAt_eq, h.bytes?_eq, h.badArgument_eq]

lemma checkString (index : Int) : Relocatable (checkString index) := by
  refine (checkBytes index).bind fun bs => ?_
  cases Text.ofBytes? bs with
  | some text => exact pure _
  | none => exact get_bind (fun s t h => by rw [h.badArgument_eq]) fun _ => throw _

end Relocatable

end State

/-! ## Requests -/

/-- The requests relative to the frame: those for something of one's own frame, apart from that for
the number of a slot. -/
def Request.IsRelative (r : Request) : Prop :=
  r.IsLocal ∧ ∀ index, r ≠ .slotOf index

/-- **A request relative to the frame is relocatable.** -/
lemma Request.relocatable_answer {r : Request} (h : r.IsRelative) : State.Relocatable r.answer := by
  obtain ⟨hlocal, hslot⟩ := h
  open State in
  cases r with
  | push v => exact .push v
  | pop => exact .pop
  | valueAt index => exact .read fun s t h => h.valueAt_eq index
  | frameSize => exact .read fun s t h => h.size_eq
  | slotOf index => exact absurd rfl (hslot index)
  | remove index => exact .remove index
  | replace index => exact .replace index
  | insert index => exact .insert index
  | setTop index => exact .setTop index
  | upvalue i => exact .read fun s t h => h.upvalue_eq i
  | currentName => exact .read fun s t h => h.currentName?_eq
  | raise message => exact .get_bind (fun s t h => by rw [h.raised_eq]) fun _ => .throw _
  | refuse index message =>
    exact .get_bind (fun s t h => by rw [h.badArgument_eq]) fun _ => .throw _
  | checkNumber index => exact .checkNumber index
  | checkString index => exact .checkString index
  | checkBytes index => exact .checkBytes index
  | coerceNumber v => exact .read fun s t h => h.coerceNumber_eq v
  | bytes v => exact .read fun s t h => h.bytes?_eq v
  | intern content => exact .internBytes content
  | newTable size => exact .newTable size
  | rawGet table key => exact .read fun s t h => h.rawGet_eq table key
  | rawSet table key value => exact .rawSet table key value
  | getGlobal name => exact .getGlobal name
  | setGlobal name value => exact .setGlobal name value
  | registryGet name => exact .registryGet name
  | metafield v event => exact .read fun s t h => by rw [h.heap]
  | setMetatable v metatable => exact .setMetatable v metatable
  | newUserdata payload metatable => exact .newUserdata payload metatable
  | newEnv parent => exact .newEnv parent
  | envGet e level slot => exact .read fun s t h => by rw [h.heap]
  | envSet e level slot value => exact .onHeap fun heap => (.ok (), heap.envSet e level slot value)
  | newClosureEnv index => exact .newClosureEnv index
  | pushCaptured index level slot => exact .pushCaptured index level slot
  | storeCaptured index level slot => exact .storeCaptured index level slot
  | registerLibrary name size => exact .registerLibrary name size
  | setStress on => exact fun s t h _ _ => ⟨rfl, h.withStress on⟩
  | trace roots => exact .onHeap fun heap => (.ok (), heap.trace roots)
  | sweep => exact .onHeap fun heap => (.ok (), heap.sweep)
  | collect | maybeCollect | setSlot | reset | inspect => exact hlocal.elim

end ScriptCore
