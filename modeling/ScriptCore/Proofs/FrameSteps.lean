import ScriptCore.Proofs.FrameView
import ScriptCore.Proofs.HandleSafety
import ScriptCore.Proofs.Routines

set_option relaxedAutoImplicit false
set_option autoImplicit false

/-!
# Routines step by step

What a request of a routine does to the frame it runs in is told by two things: the heap, and the list of the
values of the frame. Everything else of the state stays as it is. So a routine can be followed from list to
list, and a function that is called with an argument and leaves one value in its frame gives this value to its
caller, whose frame is as before.

## Main definitions

* `ScriptCore.State.Became` — a state with another heap and other values in its frame.
* `ScriptCore.Routine.Gives`, `ScriptCore.Routine.Fails` — what a routine gives or how it fails, and what the state
  has become then.
* `ScriptCore.Machine.Starts` — a machine in which a function starts to run; `ScriptCore.Machine.started` — the
  one in which it was put on the stack with its arguments.

## Main results

* `ScriptCore.Routine.Gives.bind` — sequences.
* `ScriptCore.MachineM.pushAndCall_of_gives`, `ScriptCore.MachineM.pushAndCall_of_fails` — a function called with
  one argument.
-/

namespace ScriptCore

/-! ## States with other values in their frame -/

/-- The index -1 is that of the last value. -/
lemma OnList.valueAt_concat (l : List Value) (v : Value) : OnList.valueAt (-1) (l ++ [v]) = v := by
  have hposition : OnList.position? (l ++ [v]).length (-1) = some l.length := by
    rw [OnList.position?, List.length_append, List.length_singleton, if_neg (by omega), if_pos (by omega)]
    congr 1
    omega
  rw [OnList.valueAt, hposition, Option.bind_some, List.getElem?_concat_length, Option.getD_some]

namespace State

/-- **What a state has become**: the heap is `h`, the frame has the values `l`, and the rest is as in `s`. -/
structure Became (s : State) (h : Heap) (l : List Value) (t : State) : Prop where
  heap : t.heap = h
  view : t.view = l
  frames : t.frames = s.frames
  natives : t.natives = s.natives
  globals : t.globals = s.globals
  registry : t.registry = s.registry
  base_le : t.base ≤ t.top
  top_le : t.top ≤ stackLimit
  below : ∀ i < t.base, t.stack.get i = s.stack.get i

variable {s t u : State} {h h' : Heap} {l l' : List Value}

lemma Became.refl (hbase : s.base ≤ s.top) (htop : s.top ≤ stackLimit) : s.Became s.heap s.view s :=
  ⟨rfl, rfl, rfl, rfl, rfl, rfl, hbase, htop, fun _ _ => rfl⟩

lemma Became.base (hb : s.Became h l t) : t.base = s.base := by
  rw [State.base, hb.frames, State.base]

lemma Became.trans (hst : s.Became h l t) (htu : t.Became h' l' u) : s.Became h' l' u :=
  ⟨htu.heap, htu.view, htu.frames.trans hst.frames, htu.natives.trans hst.natives, htu.globals.trans hst.globals,
    htu.registry.trans hst.registry, htu.base_le, htu.top_le,
    fun i hi => (htu.below i hi).trans (hst.below i (htu.base ▸ hi))⟩

lemma Became.size (hb : s.Became h l t) : t.size = l.length := by
  rw [← hb.view, length_view]

lemma Became.top (hb : s.Became h l t) : t.top = s.base + l.length := by
  have hsize : t.size = t.top - t.base := rfl
  have hle := hb.base_le
  rw [← hb.size, ← hb.base]
  omega

/-- With the same values in the frame, the top is as before. -/
lemma Became.top_eq (hb : s.Became h s.view t) (hbase : s.base ≤ s.top) : t.top = s.top := by
  have hsize : s.size = s.top - s.base := rfl
  rw [hb.top, length_view]
  omega

/-- A slot of the frame has the value at its position. -/
lemma Became.get (hb : s.Became h l t) {i : ℕ} {v : Value} (hv : l[i]? = some v) :
    t.stack.get (s.base + i) = v := by
  have hget := getElem?_view t i
  rw [hb.view, hv, hb.base] at hget
  split at hget <;> cases hget
  rfl

/-- A state in which the slots in use are as they were. -/
lemma Became.of_slots (hheap : t.heap = h) (htop : t.top = s.top) (hframes : t.frames = s.frames)
    (hnatives : t.natives = s.natives) (hglobals : t.globals = s.globals) (hregistry : t.registry = s.registry)
    (hbase : s.base ≤ s.top) (hlimit : s.top ≤ stackLimit)
    (hslots : ∀ i < s.top, t.stack.get i = s.stack.get i) : s.Became h s.view t := by
  have hb : t.base = s.base := by rw [State.base, hframes, State.base]
  have hsize : t.size = s.size := by rw [State.size, htop, hb, State.size]
  have hsub : s.size = s.top - s.base := rfl
  refine ⟨hheap, view_eq fun i => ?_, hframes, hnatives, hglobals, hregistry, by omega, by omega,
    fun i hi => hslots i (by omega)⟩
  rw [getElem?_view, hsize, hb]
  split
  · rw [hslots _ (by omega)]
  · rfl

/-- An action that does something to the frame as a list. -/
lemma Became.refined {α : Type} (hb : s.Became h l t) {x : Action α} {f : OnList α} {a : α}
    (hx : t.Refines x f) (hf : f l = (.ok a, l')) : ∃ u, x t = (.ok a, u) ∧ s.Became h l' u := by
  have hresult := hx.result
  have hview := hx.view
  rw [hb.view, hf] at hresult hview
  obtain ⟨stack, top, hrest⟩ := hx.rest
  have hbelow := hx.below
  have hbase := hx.base_le
  have htop := hx.top_le
  rw [hrest] at hview hbelow hbase htop
  exact ⟨(t.withStack stack).withTop top, Prod.ext hresult hrest, hb.heap, hview, hb.frames, hb.natives,
    hb.globals, hb.registry, hbase, htop, fun i hi => (hbelow i hi).trans (hb.below i hi)⟩

/-- A value is pushed, if there is room. -/
lemma Became.push (hb : s.Became h l t) (v : Value) (hroom : s.base + l.length < stackLimit) :
    ∃ u, push v t = (.ok (), u) ∧ s.Became h (l ++ [v]) u := by
  have hbase := hb.base
  exact hb.refined (refines_push hb.base_le hb.top_le v) (if_neg (by omega))

/-- The value on top is popped. -/
lemma Became.pop {v : Value} (hb : s.Became h (l ++ [v]) t) : ∃ u, pop t = (.ok v, u) ∧ s.Became h l u := by
  refine hb.refined (refines_pop hb.base_le hb.top_le) ?_
  rw [OnList.pop, List.getLast?_concat]
  exact congrArg (fun l => (Except.ok v, l)) List.dropLast_concat

/-- An action on the heap leaves the frame as it is. -/
lemma Became.onHeap {α : Type} (hb : s.Became h l t) {f : Heap → Except RuntimeError α × Heap} {a : α}
    (hf : f h = (.ok a, h')) : ∃ u, onHeap f t = (.ok a, u) ∧ s.Became h' l u := by
  refine ⟨{ t with heap := h' }, ?_, ⟨rfl, hb.view, hb.frames, hb.natives, hb.globals, hb.registry, hb.base_le,
    hb.top_le, hb.below⟩⟩
  rw [State.onHeap, hb.heap, hf]

/-- The value of an index is that of the list. -/
lemma Became.valueAt (hb : s.Became h l t) (index : Int) : t.valueAt index = OnList.valueAt index l := by
  rw [valueAt_eq_view hb.base_le, hb.view]

/-- A state with a sound heap and live values in its frame is sound. -/
lemma Became.sound (hb : s.Became h l t) (hs : s.Sound) (hbase : s.base ≤ s.top)
    (hh : Heap.Grows s.natives.size s.heap h) (hl : ∀ v ∈ l, h.Live s.natives.size v) : t.Sound := by
  have hlive : ∀ v, s.Live v → t.Live v := fun v hv => by
    rw [Live, hb.heap, hb.natives]
    exact Heap.Live.mono hv hh.inUse le_rfl
  refine ⟨by rw [hb.heap, hb.natives]; exact hh.sound, fun v hv => ?_⟩
  cases hv with
  | @stack i hi =>
    rcases Nat.lt_or_ge i t.base with hlow | hlow
    · rw [hb.below i hlow]
      refine hlive _ (hs.root _ (.stack ?_))
      rw [hb.base] at hlow
      omega
    · have hsize : t.size = t.top - t.base := rfl
      have hget := getElem?_view t (i - t.base)
      rw [hb.view, if_pos (by omega), Nat.add_sub_cancel' hlow] at hget
      rw [Live, hb.heap, hb.natives]
      exact hl _ (List.mem_of_getElem? hget)
  | globals =>
    rw [hb.globals]
    exact hlive _ (hs.root _ .globals)
  | registry =>
    rw [hb.registry]
    exact hlive _ (hs.root _ .registry)
  | upvalue hn hv => exact hlive v (hs.root v (.upvalue (hb.natives ▸ hn) hv))

end State

/-! ## Requests -/

namespace Routine

open State

variable {σ α β : Type} {enter : HostProgram σ → MachineM σ Nat} {m : Machine σ} {s : State} {h h' : Heap}
  {l l' : List Value}

/-- **What a routine gives**: from the machine `m`, it goes on with `a`, on a state that is `s` with the heap
`h` and the values `l` in its frame. -/
def Gives (enter : HostProgram σ → MachineM σ Nat) (x : Routine σ α) (m : Machine σ) (s : State) (a : α)
    (h : Heap) (l : List Value) : Prop :=
  ∃ t, Ends enter x m (.ok a) (m.withState t) ∧ s.Became h l t

/-- **A routine fails**: from the machine `m`, it goes on with an error, on a state that is `s` with the heap `h`
and any values in its frame. -/
def Fails (enter : HostProgram σ → MachineM σ Nat) (x : Routine σ α) (m : Machine σ) (s : State)
    (e : RuntimeError) (h : Heap) : Prop :=
  ∃ t l, Ends enter x m (.error e) (m.withState t) ∧ s.Became h l t

/-- A sequence gives what its second part gives behind the first. -/
lemma Gives.bind {x : Routine σ α} {f : α → Routine σ β} {a : α} {b : β} (hx : Gives enter x m s a h l)
    (hf : ∀ t, s.Became h l t → Gives enter (f a) (m.withState t) s b h' l') :
    Gives enter (x >>= f) m s b h' l' := by
  obtain ⟨t, hends, hb⟩ := hx
  obtain ⟨u, hends', hb'⟩ := hf t hb
  exact ⟨u, hends.bind hends', hb'⟩

/-- A first part that changes nothing. -/
lemma Gives.bind_of_ends {x : Routine σ α} {f : α → Routine σ β} {a : α} {b : β} (hx : Ends enter x m (.ok a) m)
    (hf : Gives enter (f a) m s b h l) : Gives enter (x >>= f) m s b h l := by
  obtain ⟨t, hends, hb⟩ := hf
  exact ⟨t, hx.bind hends, hb⟩

/-- What a sequence does behind a first part of which it is known what it gives. -/
lemma Gives.rest {x : Routine σ α} {f : α → Routine σ β} {a : α} {r : Except RuntimeError β} {n : Machine σ}
    (hx : Gives enter x m s a h l) (hends : Ends enter (x >>= f) m r n) :
    ∃ t, s.Became h l t ∧ Ends enter (f a) (m.withState t) r n := by
  obtain ⟨t, hfirst, hb⟩ := hx
  exact ⟨t, hb, hfirst.rest hends⟩

/-- A routine that changes nothing. -/
lemma gives_of_ends {x : Routine σ α} {a : α} (hb : s.Became h l m.state) (hx : Ends enter x m (.ok a) m) :
    Gives enter x m s a h l :=
  ⟨m.state, hx, hb⟩

/-- What a request gives, from what its action does. -/
lemma gives_of_answer {r : Request} {a : r.Reply} (hr : ∃ t, r.answer m.state = (.ok a, t) ∧ s.Became h l t) :
    Gives enter (ask r) m s a h l := by
  obtain ⟨t, hanswer, hb⟩ := hr
  exact ⟨t, (performs_ask r).ends hanswer, hb⟩

variable (hb : s.Became h l m.state)

include hb

lemma gives_push (v : Value) (hroom : s.base + l.length < stackLimit) :
    Gives enter (ask (.push v)) m s () h (l ++ [v]) :=
  gives_of_answer (hb.push v hroom)

omit hb in
lemma gives_pop {v : Value} (hb : s.Became h (l ++ [v]) m.state) : Gives enter (ask .pop) m s v h l :=
  gives_of_answer hb.pop

lemma gives_valueAt (index : Int) : Gives enter (ask (.valueAt index)) m s (OnList.valueAt index l) h l := by
  rw [← hb.valueAt]
  exact gives_of_answer ⟨m.state, rfl, hb⟩

lemma gives_remove {index : Int} {v : Value} (hl : OnList.remove index l = (.ok v, l')) :
    Gives enter (ask (.remove index)) m s v h l' :=
  gives_of_answer (hb.refined (refines_remove hb.base_le hb.top_le index) hl)

lemma gives_setTop {index : Int} (hl : OnList.setTop (stackLimit - s.base) index l = (.ok (), l')) :
    Gives enter (ask (.setTop index)) m s () h l' := by
  rw [← hb.base] at hl
  exact gives_of_answer (hb.refined (refines_setTop hb.base_le hb.top_le index) hl)

/-- A request that is an action on the heap. -/
lemma gives_onHeap {r : Request} {a : r.Reply} {f : Heap → Except RuntimeError r.Reply × Heap}
    (hr : r.answer = onHeap f) (hf : f h = (.ok a, h')) : Gives enter (ask r) m s a h' l := by
  refine gives_of_answer ?_
  rw [hr]
  exact hb.onHeap hf

lemma gives_intern (content : List UInt8) : Gives enter (ask (.intern content)) m s (.string (h.intern content).1)
    (h.intern content).2 l :=
  gives_onHeap hb (internBytes_eq content) rfl

lemma gives_newTable (size : ℕ) : Gives enter (ask (.newTable size)) m s (.table (h.newTable size).1)
    (h.newTable size).2 l :=
  gives_onHeap hb (newTable_eq size) rfl

lemma gives_rawSet {table key value : Value} {i : ℕ} (hkey : isKey key = true) (hi : table.table? = some i)
    (hlt : i < h.tables.items.size) : Gives enter (ask (.rawSet table key value)) m s ()
      { h with tables := h.tables.modify i (·.set key value) } l := by
  refine gives_onHeap hb (rawSet_eq table key value) ?_
  rw [if_neg (by rw [hkey]; decide), hi]
  exact if_pos hlt

/-! ### Captured variables -/

/-- A new environment inside the one at an index. -/
lemma gives_newClosureEnv {index : Int} {parent : Option ℕ}
    (hparent : parentOf (OnList.valueAt index l) = .ok parent) (hroom : s.base + l.length < stackLimit) :
    Gives enter (ask (.newClosureEnv index)) m s () (h.newEnv parent).2
      (l ++ [.env (h.newEnv parent).1]) := by
  refine gives_of_answer ?_
  obtain ⟨t, hnew, hbt⟩ := hb.onHeap
    (f := fun h => (.ok (Value.env (h.newEnv parent).1), (h.newEnv parent).2)) rfl
  obtain ⟨u, hpush, hbu⟩ := hbt.push (.env (h.newEnv parent).1) hroom
  refine ⟨u, ?_, hbu⟩
  rw [← hb.valueAt] at hparent
  rw [Request.answer, newClosureEnv_apply, hparent, bind_apply, ofExcept_apply, andThen_ok, bind_apply,
    newEnv_eq, hnew, andThen_ok, hpush]
  rfl

/-- The value of a captured variable is pushed. -/
lemma gives_pushCaptured {index : Int} {e : ℕ} (he : (OnList.valueAt index l).env? = some e) (level slot : ℕ)
    (hroom : s.base + l.length < stackLimit) :
    Gives enter (ask (.pushCaptured index level slot)) m s () h (l ++ [h.envGet e level slot]) := by
  refine gives_of_answer ?_
  obtain ⟨u, hpush, hbu⟩ := hb.push (h.envGet e level slot) hroom
  refine ⟨u, ?_, hbu⟩
  rw [← hb.valueAt] at he
  rw [Request.answer, pushCaptured_apply, envOf, he, bind_apply, ofExcept_apply, andThen_ok, hb.heap, hpush]
  rfl

omit hb in
/-- The value on top is taken into a captured variable. -/
lemma gives_storeCaptured {v : Value} (hb : s.Became h (l ++ [v]) m.state) {index : Int} {e : ℕ}
    (he : (OnList.valueAt index (l ++ [v])).env? = some e) (level slot : ℕ) :
    Gives enter (ask (.storeCaptured index level slot)) m s () (h.envSet e level slot v) l := by
  refine gives_of_answer ?_
  obtain ⟨t, hpop, hbt⟩ := hb.pop
  obtain ⟨u, hset, hbu⟩ := hbt.onHeap (f := fun h => (.ok (), h.envSet e level slot v)) rfl
  refine ⟨u, ?_, hbu⟩
  rw [← hb.valueAt] at he
  rw [Request.answer, storeCaptured_apply, envOf, he, bind_apply, ofExcept_apply, andThen_ok, bind_apply, hpop,
    andThen_ok, hset]
  rfl

end Routine

/-! ## A function with one argument -/

/-- The one value of a function is moved to the place of the function and taken from there. -/
lemma State.returnResults_pop {s : State} {slot : ℕ} (htop : s.top = slot + 2) (hbase : s.base ≤ slot)
    (hlimit : slot + 2 ≤ stackLimit) : ∃ stack : Slots,
      (returnResults slot 1 1 >>= fun _ => pop) s =
        (.ok (s.stack.get (slot + 1)), (s.withStack stack).withTop slot) ∧
      ∀ j < slot, stack.get j = s.stack.get j := by
  have hkept : kept 1 1 = 1 := by decide
  have hmoved : returnResults slot 1 1 s = (.ok (), (s.withStack
      ((s.stack.set slot (s.stack.get (slot + 1))).fill 1 (slot + 1))).withTop (slot + 1)) := by
    have hone : min 1 (s.top - (slot + 1)) = 1 := by omega
    have hhigh : max (slot + 1) s.top = slot + 2 := by omega
    have hlow : slot + min 1 (slot + 1 - slot) = slot + 1 := by omega
    rw [returnResults_apply]
    dsimp only
    rw [hone, hkept, if_neg (by omega), hhigh, hlow, clear_of_le _ _ hlimit, Nat.add_sub_add_left,
      withStack_withStack, stack_withStack, htop]
    rfl
  have hget : ((s.stack.set slot (s.stack.get (slot + 1))).fill 1 (slot + 1)).get slot =
      s.stack.get (slot + 1) := by
    rw [Slots.get_fill, if_neg (by omega), Slots.get_set, if_pos (by omega)]
  refine ⟨((s.stack.set slot (s.stack.get (slot + 1))).fill 1 (slot + 1)).set slot .nil, ?_, fun j hj => ?_⟩
  · rw [bind_apply, hmoved, andThen_ok, pop_apply, if_neg (by rw [base_withTop, base_withStack, top_withTop]; omega),
      top_withTop, Nat.add_sub_cancel, stack_withTop, stack_withStack, hget]
    rfl
  · rw [Slots.get_set, if_neg (by omega), Slots.get_fill, if_neg (by omega), Slots.get_set, if_neg (by omega)]

/-- **A function starts to run**, the one with the index `i` of the machine `m`, in a frame of its own with its
arguments. -/
structure Machine.Starts {σ : Type} (m : Machine σ) (i : ℕ) (args : List Value) (k : Machine σ) : Prop where
  bodies : k.bodies = m.bodies
  host : k.host = m.host
  natives : k.state.natives = m.state.natives
  globals : k.state.globals = m.state.globals
  registry : k.state.registry = m.state.registry
  frames : k.state.frames = ⟨m.state.top + 1, some i⟩ :: m.state.frames
  below : ∀ j < m.state.top, k.state.stack.get j = m.state.stack.get j
  started : k.state.Became m.state.heap args k.state

namespace Machine.Starts

variable {σ : Type} {m k : Machine σ} {i : ℕ} {args : List Value}

lemma base (hk : m.Starts i args k) : k.state.base = m.state.top + 1 := by
  rw [State.base, hk.frames]
  rfl

lemma current (hk : m.Starts i args k) : k.state.current? = m.state.natives[i]? := by
  rw [State.current?, hk.frames, hk.natives]
  rfl

/-- The machines differ in their states only. -/
lemma withState_eq (hk : m.Starts i args k) (s : State) : k.withState s = m.withState s := by
  rw [Machine.withState, hk.bodies, hk.host]
  rfl

/-- Behind the frame of the function the frame of the caller is as before, if everything from the function on is
dropped. -/
lemma became (hk : m.Starts i args k) {h : Heap} {l : List Value} {t u : State} (hbt : k.state.Became h l t)
    (hbase : m.state.base ≤ m.state.top) (hlimit : m.state.top ≤ stackLimit) (hheap : u.heap = t.heap)
    (htop : u.top = m.state.top) (hframes : u.frames = t.frames.tail) (hnatives : u.natives = t.natives)
    (hglobals : u.globals = t.globals) (hregistry : u.registry = t.registry)
    (hslots : ∀ j < m.state.top, u.stack.get j = t.stack.get j) : m.state.Became h m.state.view u := by
  refine .of_slots (hheap.trans hbt.heap) htop ?_ (hnatives.trans (hbt.natives.trans hk.natives))
    (hglobals.trans (hbt.globals.trans hk.globals)) (hregistry.trans (hbt.registry.trans hk.registry)) hbase hlimit
    fun j hj => ?_
  · rw [hframes, hbt.frames, hk.frames, List.tail_cons]
  · rw [hslots j hj, hbt.below j (by rw [hbt.base, hk.base]; omega), hk.below j hj]

end Machine.Starts

/-- Slots with values written from a slot on. -/
lemma Slots.get_write (s : Slots) (vs : List Value) {i : ℕ} (hi : i + vs.length ≤ stackLimit) (j : ℕ) :
    (s.write i vs).get j = if i ≤ j ∧ j < i + vs.length then vs.getD (j - i) .nil else s.get j := by
  induction vs generalizing s i with
  | nil => rw [write, if_neg (by rw [List.length_nil]; omega)]
  | cons v vs ih =>
    rw [List.length_cons] at hi
    rw [write, ih _ (by omega), get_set, List.length_cons]
    by_cases hij : i = j
    · rw [if_neg (by omega), if_pos ⟨hij, by omega⟩, if_pos (by omega), hij, Nat.sub_self]
      rfl
    · rw [if_neg (c := i = j ∧ _) fun h => hij h.1]
      by_cases hj : i + 1 ≤ j ∧ j < i + 1 + vs.length
      · have hsub : j - i = j - (i + 1) + 1 := by omega
        rw [if_pos hj, if_pos (by omega), hsub]
        rfl
      · rw [if_neg hj, if_neg (by omega)]

namespace Machine

variable {σ : Type} {m : Machine σ}

/-- A machine with a function and its arguments on top of everything. -/
def handed (m : Machine σ) (f : Value) (args : List Value) : Machine σ :=
  m.withState ((m.state.withStack (m.state.stack.write m.state.top (f :: args))).withTop
    (m.state.top + (f :: args).length))

/-- The function is where the top was. -/
lemma handed_function {f : Value} {args : List Value}
    (hroom : m.state.top + (f :: args).length ≤ stackLimit) :
    (m.handed f args).state.stack.get m.state.top = f := by
  rw [handed, state_withState, State.stack_withTop, State.stack_withStack, Slots.get_write _ _ hroom,
    if_pos (by rw [List.length_cons]; omega), Nat.sub_self]
  rfl

/-- That machine when the function, which has the index `i`, starts to run. -/
def started (m : Machine σ) (f : Value) (args : List Value) (i : ℕ) : Machine σ :=
  (m.handed f args).entered m.state.top i

/-- The function starts to run with these arguments. -/
lemma starts_started {f : Value} {args : List Value} {i : ℕ}
    (hroom : m.state.top + (f :: args).length ≤ stackLimit) : m.Starts i args (m.started f args i) := by
  have hslots := Slots.get_write m.state.stack (f :: args) hroom
  rw [List.length_cons] at hroom hslots
  refine ⟨rfl, rfl, rfl, rfl, rfl, rfl, fun j hj => ?_, rfl, State.view_eq fun j => ?_, rfl, rfl, rfl, rfl,
    ?_, hroom, fun _ _ => rfl⟩
  · exact (hslots j).trans (if_neg (by omega))
  · have hsize : (m.started f args i).state.size = args.length := by
      change m.state.top + (f :: args).length - (m.state.top + 1) = _
      rw [List.length_cons]
      omega
    rw [hsize]
    split
    · next hj =>
      have hget := (hslots (m.state.top + 1 + j)).trans (if_pos (by omega))
      rw [show m.state.top + 1 + j - m.state.top = j + 1 by omega, List.getD_cons_succ,
        List.getD_eq_getElem _ _ hj] at hget
      rw [List.getElem?_eq_getElem hj]
      exact congrArg some hget.symm
    · next hj => exact List.getElem?_eq_none (by omega)
  · change m.state.top + 1 ≤ m.state.top + (f :: args).length
    rw [List.length_cons]
    omega

end Machine

namespace MachineM

variable {σ : Type} {enter : HostProgram σ → MachineM σ Nat} {m : Machine σ}

/-- A function for which there is room with its arguments is called where it was put, and the one result is
popped. -/
lemma pushAndCall_of_fits {f : Value} {args : List Value}
    (hroom : m.state.top + (f :: args).length ≤ stackLimit) :
    pushAndCall enter f args m =
      (call enter args.length 1 >>= fun _ => lift State.pop) (m.handed f args) := by
  rw [pushAndCall_eq, bind_apply, lift_apply, State.pushAll_of_fits _ _ hroom, andThen_ok]
  rfl

/-- The function that was put on top of everything is found, if there may be one more frame. -/
lemma callee_handed {f : Value} {args : List Value} {i : ℕ} {body : HostProgram σ}
    (hf : f.function? = some i) (hbody : m.bodies[i]? = some body) (hbase : m.state.base ≤ m.state.top)
    (hroom : m.state.top + (f :: args).length ≤ stackLimit)
    (hframes : m.state.frames.length < State.maxFrames) :
    (callee args.length (m.handed f args)).1 = .ok (m.state.top, i, body) := by
  have htop : (m.handed f args).state.top = m.state.top + (args.length + 1) := rfl
  have hsize : (m.handed f args).state.size = m.state.top + (args.length + 1) - m.state.base := rfl
  refine callee_eq_ok_iff.2 ⟨by omega, by omega, ?_, hbody, hframes⟩
  rw [Machine.handed_function hroom, hf]

section OneArgument

variable {f argument : Value} {i : ℕ} {body : HostProgram σ} (hf : f.function? = some i)
  (hbody : m.bodies[i]? = some body) (hbase : m.state.base ≤ m.state.top) (hroom : m.state.top + 2 ≤ stackLimit)
  (hframes : m.state.frames.length < State.maxFrames)

include hf hbody hbase hroom hframes

/-- A function that is called with one argument starts to run with it. What it comes back with is settled, and
the one result is popped. -/
lemma exists_starts : ∃ k, m.Starts i [argument] k ∧
    pushAndCall enter f [argument] m =
      (settle m.state.top 1 (enter body k).1 >>= fun _ => lift State.pop) (enter body k).2.left := by
  have hcallee : (callee 1 (m.handed f [argument])).1 = .ok (m.state.top, i, body) :=
    callee_handed hf hbody hbase hroom hframes
  refine ⟨m.started f [argument] i, Machine.starts_started hroom, ?_⟩
  rw [pushAndCall_of_fits hroom, bind_apply, List.length_singleton, call_of_ok enter hcallee, ← bind_apply]
  rfl

variable {h : Heap}

/-- **A function called with one argument** gives the one value it leaves in its frame; the frame of the caller
is as before.

**Proof sketch.** The frame of the function begins with the argument. Behind the frame its value is moved to the
place of the function, from which it is popped. -/
theorem pushAndCall_of_gives {value : Value}
    (hrun : ∀ k, m.Starts i [argument] k →
      ∃ t, enter body k = (.ok 1, k.withState t) ∧ k.state.Became h [value] t) :
    ∃ t, pushAndCall enter f [argument] m = (.ok value, m.withState t) ∧
      m.state.Became h m.state.view t := by
  obtain ⟨k, hk, hcall⟩ := exists_starts hf hbody hbase hroom hframes
  obtain ⟨t, hrun, hbt⟩ := hrun k hk
  have htframes : t.leaveFrame.frames = m.state.frames := by
    rw [State.frames_leaveFrame, hbt.frames, hk.frames, List.tail_cons]
  have httop : t.leaveFrame.top = m.state.top + 2 := by
    rw [State.top_leaveFrame, hbt.top, hk.base]
    rfl
  obtain ⟨stack, hreturn, hbelow⟩ := State.returnResults_pop (s := t.leaveFrame) httop
    (by rw [State.base, htframes]; exact hbase) hroom
  have hvalue : t.leaveFrame.stack.get (m.state.top + 1) = value := by
    have hget := hbt.get (i := 0) (v := value) rfl
    rwa [hk.base] at hget
  refine ⟨(t.leaveFrame.withStack stack).withTop m.state.top, ?_, ?_⟩
  · have hleft : (k.withState t).left.state = t.leaveFrame := rfl
    rw [hcall, hrun, settle, ← lift_bind, lift_apply, hleft, hreturn, hvalue]
    exact congrArg (fun n => (Except.ok value, n)) (hk.withState_eq _)
  · exact hk.became hbt hbase (by omega) rfl rfl rfl rfl rfl rfl fun j hj => hbelow j hj

/-- **A function called with one argument that fails** leaves nothing in the frame of the caller. -/
theorem pushAndCall_of_fails {e : RuntimeError}
    (hrun : ∀ k, m.Starts i [argument] k →
      ∃ t l, enter body k = (.error e, k.withState t) ∧ k.state.Became h l t) :
    ∃ t, pushAndCall enter f [argument] m = (.error e, m.withState t) ∧
      m.state.Became h m.state.view t := by
  obtain ⟨k, hk, hcall⟩ := exists_starts hf hbody hbase hroom hframes
  obtain ⟨t, l, hrun, hbt⟩ := hrun k hk
  refine ⟨t.leaveFrame.unwind m.state.top, ?_, ?_⟩
  · rw [hcall, hrun, settle, bind_apply, bind_apply, modifyState_apply, andThen_ok, throw_apply, andThen_error]
    exact congrArg (fun n => (Except.error e, n)) (hk.withState_eq _)
  · refine hk.became hbt hbase (by omega) rfl rfl rfl rfl rfl rfl fun j hj => ?_
    exact (Slots.get_fill ..).trans (if_neg (by omega))

end OneArgument

end MachineM

end ScriptCore
