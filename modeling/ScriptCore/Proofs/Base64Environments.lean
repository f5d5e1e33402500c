import ScriptCore.Proofs.Base64Library
import ScriptCore.Proofs.ReverseMap
import ScriptCore.Proofs.SealedTables

set_option relaxedAutoImplicit false
set_option autoImplicit false

/-!
# The environments of base 64

The library is opened in three parts. In the first, the alphabet comes into an outermost environment for the
encoder, and in the second, the map into an environment inside of it for the decoder. Here it is followed up to
there. The map is sealed off then, since nothing in the state has a handle of it but the environment of the
decoder.

## Main definitions

* `ScriptCore.Heap.AddsOnly` — heaps to which objects have been added.
* `ScriptCore.Base64.Prepared` — machines in which the library can be opened.
* `ScriptCore.Base64.openInner`, `ScriptCore.Base64.publish` — the second and the third part.
* `ScriptCore.Base64.OuterOpened`, `ScriptCore.Base64.InnerOpened` — what the first two parts have done.

## Main results

* `ScriptCore.Base64.exists_outer`, `ScriptCore.Base64.exists_inner` — the first two parts.
-/

namespace ScriptCore

/-! ## Indices of a frame -/

namespace OnList

variable (l l' : List Value) (v w : Value)

/-- The value behind a list, counted from the first one. -/
lemma valueAt_length_succ : valueAt (l.length + 1) (l ++ v :: l') = v := by
  have hposition : position? (l ++ v :: l').length ((l.length : ℤ) + 1) = some l.length := by
    rw [position?, List.length_append, List.length_cons, if_pos (by omega)]
    congr 1
    omega
  rw [valueAt, hposition, Option.bind_some, List.getElem?_append_right le_rfl, Nat.sub_self]
  rfl

/-- The last value but one is removed. -/
lemma remove_neg_two : remove (-2) (l ++ [v, w]) = (.ok v, l ++ [w]) := by
  have hposition : position? (l ++ [v, w]).length (-2) = some l.length := by
    rw [position?, List.length_append, if_neg (by omega), if_pos (by simp), List.length_cons, List.length_singleton]
    congr 1
    omega
  have hget : (l ++ [v, w]).getD l.length .nil = v := by
    rw [List.getD_eq_getElem?_getD, List.getElem?_append_right le_rfl, Nat.sub_self]
    rfl
  have herase : (l ++ [v, w]).eraseIdx l.length = l ++ [w] := by
    rw [List.eraseIdx_append_of_length_le le_rfl, Nat.sub_self]
    rfl
  rw [remove, hposition]
  dsimp only
  rw [hget, herase]

/-- A list is cut to its first part. -/
lemma setTop_length {room : ℕ} (hroom : l.length ≤ room) : setTop room l.length (l ++ l') = (.ok (), l) := by
  have hlength : newLength (l ++ l').length l.length = l.length := if_pos (by omega)
  rw [setTop, hlength, if_neg (by omega), if_neg (by omega), Int.toNat_natCast]
  refine congrArg (fun l => (Except.ok (), l)) (List.ext_getElem? fun i => ?_)
  rw [getElem?_takeD]
  split
  · next hi => rw [List.getElem?_append_left hi, List.getElem?_eq_getElem hi, Option.getD_some]
  · next hi => rw [List.getElem?_eq_none (by omega)]

end OnList

/-! ## Heaps with more objects -/

namespace Heap

variable {h h' h'' : Heap} {new : Object → Prop} {o : Object}

/-- **Objects are added**: those in use stay so and keep their entries, and those that come into use are as `new`
says. -/
structure AddsOnly (new : Object → Prop) (h h' : Heap) : Prop where
  inUse : ∀ o, h.InUse o → h'.InUse o
  same : ∀ o, h.InUse o → h.SameEntry h' o
  new : ∀ o, h'.InUse o → h.InUse o ∨ new o

lemma AddsOnly.refl (h : Heap) : h.AddsOnly new h :=
  ⟨fun _ ho => ho, fun o _ => by cases o <;> rfl, fun _ ho => .inl ho⟩

/-- A change of one object that is a new one. -/
lemma AddsOnly.step (ha : AddsOnly new h h') (hc : h'.ChangesOnly h'' o) (hfresh : ¬h.InUse o) (ho : new o) :
    AddsOnly new h h'' where
  inUse o' ho' := hc.inUse o' (ha.inUse o' ho')
  same o' ho' := by
    have hfirst := ha.same o' ho'
    have hsecond := hc.same o' (ha.inUse o' ho') fun heq => hfresh (heq ▸ ho')
    cases o' <;> exact Eq.trans hsecond hfirst
  new o' ho' := by
    rcases hc.new o' ho' with ho' | rfl
    · exact ha.new o' ho'
    · exact .inr ho

lemma AddsOnly.mono {new' : Object → Prop} (ha : AddsOnly new h h') (hnew : ∀ o, new o → new' o) :
    AddsOnly new' h h' :=
  ⟨ha.inUse, ha.same, fun o ho => (ha.new o ho).imp_right (hnew o)⟩

lemma AddsOnly.trans (ha : AddsOnly new h h') (hb : AddsOnly new h' h'') : AddsOnly new h h'' where
  inUse o ho := hb.inUse o (ha.inUse o ho)
  same o ho := by
    have hfirst := ha.same o ho
    have hsecond := hb.same o (ha.inUse o ho)
    cases o <;> exact Eq.trans hsecond hfirst
  new o ho := by
    rcases hb.new o ho with ho | ho
    · exact ha.new o ho
    · exact .inr ho

lemma addsOnly_intern (hf : h.FreeWellFormed) (hi : h.Interning) (c : List UInt8) :
    AddsOnly (fun o => o = .string (h.intern c).1) h (h.intern c).2 :=
  ⟨(changesOnly_intern hf hi c).inUse, fun _ ho => sameEntry_intern hf hi c ho, (changesOnly_intern hf hi c).new⟩

/-- Setting a slot of an environment itself. -/
lemma envSet_zero (h : Heap) (e slot : ℕ) (v : Value) :
    h.envSet e 0 slot v = { h with envs := h.envs.modify e (·.set slot v) } := rfl

/-- What is in an environment depends on its entry. -/
lemma envGet_congr {e : ℕ} (hsame : h.SameEntry h' (.env e)) (slot : ℕ) : h'.envGet e 0 slot = h.envGet e 0 slot := by
  have hentry : h'.envs.get? e = h.envs.get? e := hsame
  simp only [envGet, envAbove?, Option.bind_some, hentry]

/-- What is set in an environment in use is read there. -/
lemma envGet_envSet_self {e : ℕ} (he : h.InUse (.env e)) (slot : ℕ) (v : Value) :
    (h.envSet e 0 slot v).envGet e 0 slot = v := by
  obtain ⟨env, henv⟩ := he.exists_get?
  have hset : (h.envSet e 0 slot v).envs.get? e = some (env.set slot v) := by
    rw [envSet_zero, Arena.get?_modify, if_pos rfl, henv, Option.map_some]
  rw [envGet, envAbove?, Option.bind_some, hset]
  dsimp only
  rw [Env.get_set, if_pos rfl]

end Heap

namespace Base64

open Routine

variable {σ : Type} {enter : HostProgram σ → MachineM σ Nat} {m n k : Machine σ} {r : ℕ}

/-! ## Parts of the opening -/

/-- The third part of the opening, with the two functions. -/
def publish (encode decode : Value) : Routine σ Value := do
  let table ← Routine.ask (.registerLibrary "base64" 2)
  let key ← Routine.intern "encode"
  Routine.ask (.rawSet table key encode)
  let key ← Routine.intern "decode"
  Routine.ask (.rawSet table key decode)
  return table

/-- The second part of the opening, in a frame of the given size below the environment of the encoder, and the
third one behind it. -/
def openInner (size : ℕ) (encode : Value) : Routine σ Value := do
  Routine.ask (.newClosureEnv ((size : ℤ) + 1))
  let map ← Routine.ask (.newTable alphabet.utf8ByteSize)
  fillMap map 0 codes
  Routine.ask (.push map)
  Routine.ask (.storeCaptured ((size : ℤ) + 2) 0 mapSlot)
  let decodeEnv ← Routine.ask (.valueAt ((size : ℤ) + 2))
  let decode ← Routine.define "base64.decode" decode.program #[decodeEnv]
  Routine.ask (.setTop size)
  publish encode decode

/-- **A machine in which the library can be opened**: without dangling handles, with the values of its frame
within the stack and a program for every function, and with handles for `r` more objects of every kind and as
many functions. -/
structure Prepared (r : ℕ) (m : Machine σ) : Prop where
  sound : m.state.Sound
  base_le : m.state.base ≤ m.state.top
  top_le : m.state.top ≤ stackLimit
  bodies : m.bodies.size = m.state.natives.size
  strings : m.state.heap.strings.items.size + r ≤ Value.payloadLimit
  tables : m.state.heap.tables.items.size + r ≤ Value.payloadLimit
  envs : m.state.heap.envs.items.size + r ≤ Value.payloadLimit
  userdata : m.state.heap.userdata.items.size + r ≤ Value.payloadLimit
  natives : m.state.natives.size + r ≤ Value.payloadLimit

/-- There is room for `r` more values on the stack, or what is done has succeeded. -/
def HasStack {β : Type} (r : ℕ) (s : State) (q : Except RuntimeError β) : Prop :=
  s.top + r ≤ stackLimit ∨ ∃ b, q = .ok b

section Room

variable {β : Type} {s : State} {h : Heap} {l : List Value} {q : Except RuntimeError β}

/-- On a full stack nothing is pushed. -/
lemma ends_push_of_full (v : Value) (hfull : stackLimit ≤ m.state.top) :
    Ends enter (ask (.push v)) m (.error .stackOverflow) m :=
  (performs_ask (.push v)).ends ((State.push_apply v m.state).trans (if_pos hfull))

/-- On a full stack an environment is made, but not pushed. -/
lemma ends_newClosureEnv_of_full {index : ℤ} {parent : Option ℕ} (hb : s.Became h l m.state)
    (hparent : State.parentOf (OnList.valueAt index l) = .ok parent) (hfull : stackLimit ≤ s.base + l.length) :
    ∃ t, Ends enter (ask (.newClosureEnv index)) m (.error .stackOverflow) (m.withState t) ∧
      s.Became (h.newEnv parent).2 l t := by
  have htop := hb.top
  refine ⟨{ m.state with heap := (m.state.heap.newEnv parent).2 }, (performs_ask (.newClosureEnv index)).ends ?_,
    ⟨by rw [hb.heap], hb.view, hb.frames, hb.natives, hb.globals, hb.registry, hb.base_le, hb.top_le, hb.below⟩⟩
  rw [← hb.valueAt] at hparent
  rw [Request.answer, State.newClosureEnv_apply, hparent, bind_apply, ofExcept_apply, andThen_ok, bind_apply,
    State.newEnv_eq, State.onHeap, andThen_ok, State.push_apply]
  exact if_pos (by simp only; omega)

/-- There was room for a value that has been pushed. -/
lemma room_of_push {v : Value} {f : Unit → Routine σ β} (hq : HasStack r s q) (hl : s.base + l.length < s.top + r)
    (hb : s.Became h l m.state) (hends : Ends enter (ask (.push v) >>= f) m q n) :
    s.base + l.length < stackLimit := by
  by_contra hroom
  have htop := hb.top
  have hfailed := ((ends_push_of_full v (by omega)).bind_error.unique hends).1
  rcases hq with hq | ⟨b, rfl⟩
  · omega
  · cases hfailed

/-- There was room for an environment that has been pushed. -/
lemma room_of_newClosureEnv {index : ℤ} {parent : Option ℕ} {f : Unit → Routine σ β} (hq : HasStack r s q)
    (hl : s.base + l.length < s.top + r) (hb : s.Became h l m.state)
    (hparent : State.parentOf (OnList.valueAt index l) = .ok parent)
    (hends : Ends enter (ask (.newClosureEnv index) >>= f) m q n) : s.base + l.length < stackLimit := by
  by_contra hroom
  obtain ⟨t, hfull, -⟩ := ends_newClosureEnv_of_full hb hparent (Nat.le_of_not_lt hroom)
  have hfailed := (hfull.bind_error.unique hends).1
  rcases hq with hq | ⟨b, rfl⟩
  · omega
  · cases hfailed

end Room

/-! ## The environment of the encoder -/

/-- The environment `e` holds the alphabet, as the string `c`. -/
structure HoldsAlphabet (h : Heap) (e c : ℕ) : Prop where
  inUse : h.InUse (.env e)
  slot : h.envGet e 0 alphabetSlot = .string c
  codes : h.HoldsString c codes

/-- The heap with an outermost environment that holds the alphabet. -/
def withAlphabet (h : Heap) : Heap :=
  ((h.newEnv none).2.intern codes).2.envSet (h.newEnv none).1 0 alphabetSlot
    (.string ((h.newEnv none).2.intern codes).1)

section Alphabet

variable {h : Heap} {functions : ℕ}

lemma grows_withAlphabet (hs : h.Sound functions) : Heap.Grows functions h (withAlphabet h) ∧
    HoldsAlphabet (withAlphabet h) (h.newEnv none).1 ((h.newEnv none).2.intern codes).1 := by
  obtain ⟨henv, -⟩ := @Heap.Sound.newEnv _ _ hs none nofun
  obtain ⟨hintern, hstring⟩ := henv.sound.intern codes
  have he := hintern.inUse _ (Heap.inUse_newEnv hs.orderly.wellFormed none)
  have hset := hintern.sound.envSet he 0 alphabetSlot hstring
  have hcodes := henv.sound.orderly.interning.holdsString_index codes
  refine ⟨⟨hset.sound, fun o ho => hset.inUse o (hintern.inUse o (henv.inUse o ho))⟩, hset.inUse _ he,
    Heap.envGet_envSet_self he _ _, hset.inUse _ hcodes.inUse, ?_⟩
  rw [withAlphabet, (Heap.envSet_strings ..).1]
  exact hcodes.content

lemma adds_withAlphabet (hs : h.Sound functions) : h.AddsOnly (fun _ => True) (withAlphabet h) := by
  have hwf := hs.orderly.wellFormed
  have henv := (@Heap.Sound.newEnv _ _ hs none nofun).1
  have hintern := (henv.sound.intern codes).1
  have hfresh : ¬h.InUse (.env (h.newEnv none).1) := (hwf.envs.alloc_index _).1
  have hfirst : h.AddsOnly (fun _ => True) (h.newEnv none).2 :=
    (Heap.AddsOnly.refl h).step (Heap.changesOnly_newEnv hwf hs.orderly.interning none) hfresh trivial
  have hsecond := Heap.addsOnly_intern henv.sound.orderly.wellFormed henv.sound.orderly.interning codes
  exact (hfirst.trans (hsecond.mono fun _ _ => trivial)).step
    (Heap.changesOnly_modifyEnv hintern.sound.orderly.wellFormed hintern.sound.orderly.interning _ _) hfresh trivial

lemma size_withAlphabet (h : Heap) : (withAlphabet h).strings.items.size ≤ h.strings.items.size + 1 ∧
    (withAlphabet h).tables = h.tables ∧ (withAlphabet h).envs.items.size ≤ h.envs.items.size + 1 ∧
    (withAlphabet h).userdata = h.userdata := by
  rw [withAlphabet, Heap.envSet_zero]
  refine ⟨(h.newEnv none).2.size_strings_intern_le codes, Heap.tables_intern _ codes, ?_, Heap.userdata_intern _ codes⟩
  rw [Arena.size_modify, Heap.envs_intern]
  exact h.envs.size_alloc_le _

end Alphabet

/-! ## New functions -/

section Functions

variable {f : Value} {body : HostProgram σ} {e : ℕ} {name : String}

/-- A new function runs its program. -/
lemma runs_addFunction (name : String) (body : HostProgram σ) (hbodies : m.bodies.size = m.state.natives.size)
    (hroom : m.state.natives.size < Value.payloadLimit) (he : e < Value.payloadLimit) :
    Runs (m.addFunction name body #[.env e]) (.function m.state.natives.size) name body e := by
  have hf : (Value.function m.state.natives.size).function? = some m.state.natives.size := by
    rw [Value.function?, Value.isFunction, Value.function, Value.tag_box (by decide), Value.payload_box (by decide),
      Nat.mod_eq_of_lt hroom]
    rfl
  refine ⟨m.state.natives.size, ⟨name, #[.env e]⟩, hf, ?_, Array.getElem?_push_size, rfl, Value.env?_env he⟩
  rw [Machine.addFunction, ← hbodies]
  exact Array.getElem?_push_size

/-- The functions there are stay as they are. -/
lemma Runs.addFunction (name' : String) (body' : HostProgram σ) (upvalues : Array Value)
    (h : Runs m f name body e) : Runs (m.addFunction name' body' upvalues) f name body e := by
  obtain ⟨i, native, hf, hbody, hnative, hname, he⟩ := h
  refine ⟨i, native, hf, ?_, ?_, hname, he⟩
  · have hlt := (Array.getElem?_eq_some_iff.1 hbody).1
    rw [Machine.addFunction, Array.getElem?_push, if_neg hlt.ne, hbody]
  · have hlt := (Array.getElem?_eq_some_iff.1 hnative).1
    rw [Machine.state_addFunction, State.addNative, Array.getElem?_push, if_neg hlt.ne, hnative]

lemma Runs.congr (h : Runs m f name body e) (hbodies : k.bodies = m.bodies)
    (hnatives : k.state.natives = m.state.natives) : Runs k f name body e := by
  obtain ⟨i, native, hf, hbody, hnative, hname, he⟩ := h
  exact ⟨i, native, hf, hbodies ▸ hbody, hnatives ▸ hnative, hname, he⟩

/-- What is in the frame of a sound state is live. -/
lemma live_of_mem_view {s : State} (hs : s.Sound) {v : Value} (hv : v ∈ s.view) : s.Live v := by
  obtain ⟨i, hi, rfl⟩ := List.mem_map.1 hv
  have hsize : s.size = s.top - s.base := rfl
  exact hs.live_slot (by have := List.mem_range.1 hi; omega)

/-- The values of a frame with an environment on top are live in a heap that has grown. -/
lemma live_concat {s : State} {h : Heap} (hs : s.Sound) (hh : Heap.Grows s.natives.size s.heap h)
    (he : h.InUse (.env e)) : ∀ v ∈ s.view ++ [.env e], h.Live s.natives.size v := by
  intro v hv
  rcases List.mem_append.1 hv with hv | hv
  · exact Heap.Live.mono (live_of_mem_view hs hv) hh.inUse le_rfl
  · rw [List.mem_singleton.1 hv]
    exact hh.sound.live_value he

/-- A machine stays prepared when its heap and its frame have become others and there is a new function, if there
is at most one more object of every kind. -/
lemma Prepared.addFunction (name : String) (body : HostProgram σ) (upvalues : Array Value) {t : State} {h : Heap}
    {l : List Value} (hm : Prepared (r + 1) m)
    (hb : m.state.Became h l t) (hh : Heap.Grows m.state.natives.size m.state.heap h)
    (hl : ∀ v ∈ l, h.Live m.state.natives.size v) (hupvalues : ∀ v ∈ upvalues, v ∈ l)
    (hstrings : h.strings.items.size ≤ m.state.heap.strings.items.size + 1)
    (htables : h.tables.items.size ≤ m.state.heap.tables.items.size + 1)
    (henvs : h.envs.items.size ≤ m.state.heap.envs.items.size + 1) (huserdata : h.userdata = m.state.heap.userdata) :
    Prepared r ((m.withState t).addFunction name body upvalues) := by
  obtain ⟨hsound, hbase, htop, hbodies, hs, ht, he, hu, hn⟩ := hm
  have hlive : ∀ v ∈ l, t.Live v := fun v hv => by
    rw [State.Live, hb.heap, hb.natives]
    exact hl v hv
  have hnatives : (t.natives.push ⟨name, upvalues⟩).size = m.state.natives.size + 1 := by
    rw [Array.size_push, hb.natives]
  refine ⟨(State.sound_addNative (hb.sound hsound hbase hh hl) name fun v hv => hlive v (hupvalues v hv)).1,
    hb.base_le, hb.top_le, ?_, ?_, ?_, ?_, ?_, ?_⟩
  · exact (Array.size_push _).trans ((congrArg (· + 1) hbodies).trans hnatives.symm)
  · change t.heap.strings.items.size + r ≤ Value.payloadLimit
    rw [hb.heap]
    omega
  · change t.heap.tables.items.size + r ≤ Value.payloadLimit
    rw [hb.heap]
    omega
  · change t.heap.envs.items.size + r ≤ Value.payloadLimit
    rw [hb.heap]
    omega
  · change t.heap.userdata.items.size + r ≤ Value.payloadLimit
    rw [hb.heap, huserdata]
    omega
  · change (t.natives.push ⟨name, upvalues⟩).size + r ≤ Value.payloadLimit
    omega

end Functions

/-! ## The first part -/

/-- **What there was is there still**: from one machine to another one objects are added, and the globals, the
registry, the frames and the slots below the current one are the same. -/
structure Leads (m k : Machine σ) : Prop where
  adds : m.state.heap.AddsOnly (fun _ => True) k.state.heap
  natives : m.state.natives.size ≤ k.state.natives.size
  globals : k.state.globals = m.state.globals
  registry : k.state.registry = m.state.registry
  frames : k.state.frames = m.state.frames
  below : ∀ i < m.state.base, k.state.stack.get i = m.state.stack.get i

lemma Leads.base (h : Leads m k) : k.state.base = m.state.base := by rw [State.base, h.frames, State.base]

lemma Leads.trans (h : Leads m n) (h' : Leads n k) : Leads m k :=
  ⟨h.adds.trans h'.adds, h.natives.trans h'.natives, h'.globals.trans h.globals, h'.registry.trans h.registry,
    h'.frames.trans h.frames, fun i hi => (h'.below i (h.base ▸ hi)).trans (h.below i hi)⟩

/-- What a state has become is led to if objects have been added. -/
lemma leads_of_became {t : State} {h : Heap} {l : List Value} (hb : m.state.Became h l t)
    (hadds : m.state.heap.AddsOnly (fun _ => True) h) : Leads m (m.withState t) :=
  ⟨hb.heap ▸ hadds, (congrArg Array.size hb.natives).ge, hb.globals, hb.registry, hb.frames,
    fun i hi => hb.below i (hb.base ▸ hi)⟩

lemma Leads.addFunction (h : Leads m k) (name : String) (body : HostProgram σ) (upvalues : Array Value) :
    Leads m (k.addFunction name body upvalues) :=
  ⟨h.adds, h.natives.trans (by rw [Machine.state_addFunction, State.addNative, Array.size_push]; omega), h.globals,
    h.registry, h.frames, h.below⟩

/-- **The first part of the opening**: the function `encoder` runs the encoder, whose environment `e` holds the
alphabet. This environment is on top of the frame. -/
structure OuterOpened (r : ℕ) (m k : Machine σ) (encoder : Value) (e c : ℕ) : Prop where
  prepared : Prepared r k
  leads : Leads m k
  view : k.state.view = m.state.view ++ [.env e]
  top : k.state.top = m.state.top + 1
  runs : Runs k encoder "base64.encode" encode.program e
  alphabet : HoldsAlphabet k.state.heap e c
  lt : e < Value.payloadLimit

variable {q : Except RuntimeError Value}

/-- What the first part does to the heap and the frame. -/
lemma exists_withAlphabet {e : ℕ} (hm : Prepared r m) (he : (m.state.heap.newEnv none).1 = e)
    (hlt : e < Value.payloadLimit) (hq : HasStack 2 m.state q) (hends : Ends enter openLibrary m q n) :
    ∃ t, m.state.Became (withAlphabet m.state.heap) (m.state.view ++ [.env e]) t ∧
      Ends enter (define "base64.encode" encode.program #[.env e] >>= openInner m.state.size) (m.withState t) q n := by
  have hindex (l : List Value) :
      OnList.valueAt ((m.state.size : ℤ) + 1) (m.state.view ++ .env e :: l) = .env e := by
    rw [← m.state.length_view]
    exact OnList.valueAt_length_succ ..
  -- an environment on top of the frame
  have hends := (ends_reading (r := .frameSize) rfl).rest hends
  have hb := State.Became.refl hm.base_le hm.top_le
  have htop := hb.top
  have hroom := room_of_push hq (by omega) hb hends
  obtain ⟨t, hb, hends⟩ := (gives_push hb .nil hroom).rest hends
  have hparent : State.parentOf (OnList.valueAt (-1) (m.state.view ++ [.nil])) = .ok none := by
    rw [OnList.valueAt_concat]
    rfl
  have hroom := room_of_newClosureEnv (m := m.withState t) hq
    (by rw [List.length_append, List.length_singleton]; omega) hb hparent hends
  obtain ⟨t, hb, hends⟩ := (gives_newClosureEnv (m := m.withState t) hb hparent hroom).rest hends
  rw [List.append_assoc, he] at hb
  have hremove := OnList.remove_neg_two m.state.view .nil (.env e)
  obtain ⟨t, hb, hends⟩ := (gives_remove (m := m.withState t) hb hremove).rest hends
  -- the alphabet comes into it
  obtain ⟨t, hb, hends⟩ := (gives_intern (m := m.withState t) hb codes).rest hends
  have hroom := room_of_push (m := m.withState t) hq
    (by rw [List.length_append, List.length_singleton]; omega) hb hends
  obtain ⟨t, hb, hends⟩ := (gives_push (m := m.withState t) hb _ hroom).rest hends
  have henv : (OnList.valueAt ((m.state.size : ℤ) + 1)
      (m.state.view ++ [.env e] ++ [.string ((m.state.heap.newEnv none).2.intern codes).1])).env? = some e := by
    rw [List.append_assoc]
    exact (congrArg Value.env? (hindex _)).trans (Value.env?_env hlt)
  obtain ⟨t, hb, hends⟩ := (gives_storeCaptured (m := m.withState t) hb henv 0 alphabetSlot).rest hends
  obtain ⟨t, hb, hends⟩ := (gives_valueAt (m := m.withState t) hb ((m.state.size : ℤ) + 1)).rest hends
  rw [hindex] at hends
  rw [← he] at hb hends ⊢
  exact ⟨t, hb, hends⟩

/-- **The first part is done** by an opening that has room on the stack or succeeds. -/
lemma exists_outer (hm : Prepared (r + 1) m) (hq : HasStack 2 m.state q) (hends : Ends enter openLibrary m q n) :
    ∃ k encoder e c, OuterOpened r m k encoder e c ∧ Ends enter (openInner m.state.size encoder) k q n := by
  obtain ⟨hgrows, halphabet⟩ := grows_withAlphabet hm.sound.heap
  obtain ⟨e, he⟩ : ∃ e, (m.state.heap.newEnv none).1 = e := ⟨_, rfl⟩
  have hlt : e < Value.payloadLimit := by
    have hlt : (m.state.heap.newEnv none).1 < (m.state.heap.newEnv none).2.envs.items.size :=
      (hm.sound.heap.orderly.wellFormed.envs.alloc_index (.new none)).2
    have hle : (m.state.heap.newEnv none).2.envs.items.size ≤ m.state.heap.envs.items.size + 1 :=
      m.state.heap.envs.size_alloc_le _
    have hroom := hm.envs
    omega
  obtain ⟨t, hb, hends⟩ := exists_withAlphabet hm he hlt hq hends
  rw [he] at halphabet
  have hlive := live_concat hm.sound hgrows halphabet.inUse
  obtain ⟨hs, ht, hn, hu⟩ := size_withAlphabet m.state.heap
  have hnatives : t.natives = m.state.natives := hb.natives
  have halphabet : HoldsAlphabet t.heap e _ := hb.heap ▸ halphabet
  have htop : t.top = m.state.top + 1 := by
    have hbefore := (State.Became.refl hm.base_le hm.top_le).top
    rw [hb.top, List.length_append, List.length_singleton]
    omega
  have hleads := leads_of_became hb (adds_withAlphabet hm.sound.heap)
  refine ⟨_, _, e, _, ⟨?_, hleads.addFunction _ _ _, hb.view, htop, ?_, halphabet, hlt⟩,
    (ends_define "base64.encode" encode.program #[.env e]).rest hends⟩
  · refine hm.addFunction _ _ _ hb hgrows hlive (fun v hv => ?_) hs (by rw [ht]; omega) hn hu
    exact List.mem_append_right _ (List.mem_singleton.2 (Array.mem_singleton.1 hv))
  · refine runs_addFunction (m := m.withState t) _ _ ?_ ?_ hlt
    · exact hm.bodies.trans (congrArg Array.size hnatives.symm)
    · rw [Machine.state_withState, hnatives]
      have hroom := hm.natives
      omega

/-! ## The second part -/

/-- The heap with a new table that is the map. -/
def withTable (h : Heap) : Heap :=
  { (h.newTable alphabet.utf8ByteSize).2 with
    tables := (h.newTable alphabet.utf8ByteSize).2.tables.modify (h.newTable alphabet.utf8ByteSize).1
      (filled · 0 codes) }

/-- The heap with an environment inside of `e` that holds the map. -/
def withMap (h : Heap) (e : ℕ) : Heap :=
  (withTable (h.newEnv (some e)).2).envSet (h.newEnv (some e)).1 0 mapSlot
    (.table ((h.newEnv (some e)).2.newTable alphabet.utf8ByteSize).1)

/-- The environment `e` holds the map, as the table `t`; both have been made behind the heap `h₀`. -/
structure HoldsNewMap (h₀ h : Heap) (e t : ℕ) : Prop where
  freshEnv : ¬h₀.InUse (.env e)
  freshTable : ¬h₀.InUse (.table t)
  inUse : h.InUse (.env e)
  inUseTable : h.InUse (.table t)
  slot : h.envGet e 0 mapSlot = .table t
  entry : h.tables.get? t = some (filled .empty 0 codes)
  adds : h₀.AddsOnly (fun o => o = .env e ∨ o = .table t) h

section Map

variable {h : Heap} {functions : ℕ}

/-- Filling a table with characters keeps a heap sound. -/
lemma grows_filled (hs : h.Sound functions) {t : ℕ} (ht : h.InUse (.table t)) (i : ℕ) (cs : List UInt8) :
    Heap.Grows functions h { h with tables := h.tables.modify t (filled · i cs) } := by
  induction cs generalizing h i with
  | nil =>
    have hid : h.tables.modify t (filled · i []) = h.tables := h.tables.modify_id t
    rw [hid]
    exact hs.grows_refl
  | cons c cs ih =>
    have hset := @Heap.Sound.setEntry _ _ hs _ ht (key c) (position i)
      (Heap.live_of_isPlain (Value.isPlain_number _)) (Heap.live_of_isPlain (Value.isPlain_number _))
    have hrest := ih hset.sound (hset.inUse _ ht) (i + 1)
    rw [Arena.modify_modify] at hrest
    exact ⟨hrest.sound, fun o ho => hrest.inUse o (hset.inUse o ho)⟩

lemma grows_withTable (hs : h.Sound functions) {e : ℕ} (he : h.InUse (.env e)) :
    Heap.Grows functions h (withTable (h.newEnv (some e)).2) ∧
      ((h.newEnv (some e)).2.newTable alphabet.utf8ByteSize).2.InUse
        (.table ((h.newEnv (some e)).2.newTable alphabet.utf8ByteSize).1) ∧
      (withTable (h.newEnv (some e)).2).InUse (.env (h.newEnv (some e)).1) ∧
      h.AddsOnly (fun o => o = .env (h.newEnv (some e)).1 ∨
        o = .table ((h.newEnv (some e)).2.newTable alphabet.utf8ByteSize).1) (withTable (h.newEnv (some e)).2) := by
  -- the environment, and the table beside it
  have hwf := hs.orderly.wellFormed
  have hi := hs.orderly.interning
  have henv := (@Heap.Sound.newEnv _ _ hs (some e) fun p hp => Option.some.inj hp ▸ hs.live_value he).1
  have hwf₁ := henv.sound.orderly.wellFormed
  have htable := (henv.sound.newTable alphabet.utf8ByteSize).1
  have hin := Heap.inUse_newTable hwf₁ alphabet.utf8ByteSize
  have hfill := grows_filled htable.sound hin 0 codes
  have hfreshEnv : ¬h.InUse (.env (h.newEnv (some e)).1) := (hwf.envs.alloc_index _).1
  have hfreshTable : ¬h.InUse (.table ((h.newEnv (some e)).2.newTable alphabet.utf8ByteSize).1) :=
    (hwf₁.tables.alloc_index _).1
  refine ⟨⟨hfill.sound, fun o ho => hfill.inUse o (htable.inUse o (henv.inUse o ho))⟩, hin,
    hfill.inUse _ (htable.inUse _ (Heap.inUse_newEnv hwf (some e))), ?_⟩
  exact (((Heap.AddsOnly.refl h).step (Heap.changesOnly_newEnv hwf hi _) hfreshEnv (.inl rfl)).step
    (Heap.changesOnly_newTable hwf₁ henv.sound.orderly.interning _) hfreshTable (.inr rfl)).step
    (Heap.changesOnly_modifyTable htable.sound.orderly.wellFormed htable.sound.orderly.interning _ _) hfreshTable
    (.inr rfl)

lemma grows_withMap (hs : h.Sound functions) {e : ℕ} (he : h.InUse (.env e)) :
    Heap.Grows functions h (withMap h e) ∧ HoldsNewMap h (withMap h e) (h.newEnv (some e)).1
      ((h.newEnv (some e)).2.newTable alphabet.utf8ByteSize).1 := by
  have hwf := hs.orderly.wellFormed
  obtain ⟨hgrows, hin, hinEnv, hadds⟩ := grows_withTable hs he
  have henv := (@Heap.Sound.newEnv _ _ hs (some e) fun p hp => Option.some.inj hp ▸ hs.live_value he).1
  have hwf₁ := henv.sound.orderly.wellFormed
  have hlive := (henv.sound.newTable alphabet.utf8ByteSize).2
  have hfill := grows_filled (henv.sound.newTable alphabet.utf8ByteSize).1.sound hin 0 codes
  -- the map comes to its place in the environment
  have hset := hgrows.sound.envSet hinEnv 0 mapSlot (hlive.mono hfill.inUse le_rfl)
  have hfreshEnv : ¬h.InUse (.env (h.newEnv (some e)).1) := (hwf.envs.alloc_index _).1
  refine ⟨⟨hset.sound, fun o ho => hset.inUse o (hgrows.inUse o ho)⟩, hfreshEnv, (hwf₁.tables.alloc_index _).1,
    hset.inUse _ hinEnv, hset.inUse _ (hfill.inUse _ hin), Heap.envGet_envSet_self hinEnv .., ?_, ?_⟩
  · rw [withMap, Heap.envSet_zero, withTable]
    dsimp only
    rw [Arena.get?_modify, if_pos rfl, Heap.get?_newTable hwf₁, Option.map_some]
  · exact hadds.step (Heap.changesOnly_modifyEnv hgrows.sound.orderly.wellFormed hgrows.sound.orderly.interning _ _)
      hfreshEnv (.inl rfl)

lemma size_withTable (h : Heap) (e : ℕ) : (withTable (h.newEnv (some e)).2).strings = h.strings ∧
    (withTable (h.newEnv (some e)).2).tables.items.size ≤ h.tables.items.size + 1 ∧
    (withTable (h.newEnv (some e)).2).envs.items.size ≤ h.envs.items.size + 1 ∧
    (withTable (h.newEnv (some e)).2).userdata = h.userdata := by
  rw [withTable]
  refine ⟨rfl, ?_, h.envs.size_alloc_le _, rfl⟩
  rw [Arena.size_modify]
  exact h.tables.size_alloc_le _

lemma size_withMap (h : Heap) (e : ℕ) : (withMap h e).strings = h.strings ∧
    (withMap h e).tables.items.size ≤ h.tables.items.size + 1 ∧
    (withMap h e).envs.items.size ≤ h.envs.items.size + 1 ∧ (withMap h e).userdata = h.userdata := by
  rw [withMap, Heap.envSet_zero, Arena.size_modify]
  exact size_withTable h e

end Map

/-- A live value is not a table that has been made behind the heap it is live in. -/
lemma table?_ne_of_live {h : Heap} {functions t : ℕ} {v : Value} (hv : h.Live functions v)
    (ht : ¬h.InUse (.table t)) : v.table? ≠ some t :=
  fun heq => ht (hv.object _ (Value.object?_of_table? heq))

/-- **The map is sealed off**: what there was before has no handle of it. -/
lemma sealed_of_holdsNewMap {s u : State} {e t : ℕ} (hs : s.Sound) (hmap : HoldsNewMap s.heap u.heap e t)
    (hu : u.Sound) (hglobals : u.globals = s.globals) (hregistry : u.registry = s.registry)
    (hstrings : u.heap.strings.items.size + r ≤ Value.payloadLimit)
    (htables : u.heap.tables.items.size + r ≤ Value.payloadLimit) : State.Sealed t (filled .empty 0 codes) r u := by
  refine ⟨hu, ⟨hmap.inUseTable, hmap.entry, fun i key hi hin => ?_, hstrings, htables⟩, ?_, ?_⟩
  · have hold : s.heap.InUse (.table i) := by
      rcases hmap.adds.new _ hin with hold | heq | heq
      · exact hold
      · cases heq
      · exact absurd (Object.table.inj heq) hi
    have hsame : u.heap.tables.get? i = s.heap.tables.get? i := hmap.adds.same _ hold
    have hget : u.heap.tableGet i key = s.heap.tableGet i key := by
      rw [Heap.tableGet, hsame, Heap.tableGet]
    rw [hget]
    exact table?_ne_of_live (hs.heap.live_tableGet hold key) hmap.freshTable
  · rw [hglobals]
    exact table?_ne_of_live (hs.root _ .globals) hmap.freshTable
  · rw [hregistry]
    exact table?_ne_of_live (hs.root _ .registry) hmap.freshTable

/-- The alphabet stays when objects are added. -/
lemma HoldsAlphabet.adds {h h' : Heap} {e c : ℕ} {new : Object → Prop} (ha : HoldsAlphabet h e c)
    (hadds : h.AddsOnly new h') : HoldsAlphabet h' e c := by
  refine ⟨hadds.inUse _ ha.inUse, ?_, hadds.inUse _ ha.codes.inUse, ?_⟩
  · rw [Heap.envGet_congr (hadds.same _ ha.inUse)]
    exact ha.slot
  · have hsame : h'.strings.get? c = h.strings.get? c := hadds.same _ ha.codes.inUse
    rw [hsame]
    exact ha.codes.content

/-- A machine stays prepared when values of its frame are dropped. -/
lemma Prepared.became {t : State} {l : List Value} (hm : Prepared r m) (hb : m.state.Became m.state.heap l t)
    (hl : ∀ v ∈ l, v ∈ m.state.view) : Prepared r (m.withState t) := by
  obtain ⟨hsound, hbase, htop, hbodies, hs, ht, he, hu, hn⟩ := hm
  refine ⟨hb.sound hsound hbase hsound.heap.grows_refl fun v hv => live_of_mem_view hsound (hl v hv), hb.base_le,
    hb.top_le, ?_, ?_, ?_, ?_, ?_, ?_⟩ <;> rw [Machine.state_withState]
  · rw [hb.natives]
    exact hbodies
  · rwa [hb.heap]
  · rwa [hb.heap]
  · rwa [hb.heap]
  · rwa [hb.heap]
  · rwa [hb.natives]

/-- **Behind the second part of the opening** the functions `encoder` and `decoder` run the encoder and the
decoder, the environments of which hold the alphabet and the map. The map is sealed off. -/
structure InnerOpened (r : ℕ) (k : Machine σ) (encoder decoder : Value) (e c inner t : ℕ) : Prop where
  prepared : Prepared r k
  runsEncoder : Runs k encoder "base64.encode" encode.program e
  runsDecoder : Runs k decoder "base64.decode" decode.program inner
  alphabet : HoldsAlphabet k.state.heap e c
  slot : k.state.heap.envGet inner 0 mapSlot = .table t
  map : State.Sealed t (filled .empty 0 codes) r k.state

variable {encoder : Value} {e c : ℕ}

/-- Behind the environment of the encoder, an environment inside of it is made, and the map beside it. -/
lemma exists_withTable {inner t : ℕ} (ho : OuterOpened (r + 1) m k encoder e c)
    (hinner : (k.state.heap.newEnv (some e)).1 = inner)
    (ht : ((k.state.heap.newEnv (some e)).2.newTable alphabet.utf8ByteSize).1 = t) (htlt : t < Value.payloadLimit)
    (hq : HasStack 1 k.state q) (hends : Ends enter (openInner m.state.size encoder) k q n) :
    ∃ u, k.state.Became (withTable (k.state.heap.newEnv (some e)).2) (m.state.view ++ [.env e, .env inner]) u ∧
      Ends enter (ask (.push (.table t)) >>= fun _ => do
        ask (.storeCaptured ((m.state.size : ℤ) + 2) 0 mapSlot)
        let decodeEnv ← ask (.valueAt ((m.state.size : ℤ) + 2))
        let decoder ← define "base64.decode" decode.program #[decodeEnv]
        ask (.setTop m.state.size)
        publish encoder decoder) (k.withState u) q n := by
  have houter : OnList.valueAt ((m.state.size : ℤ) + 1) (m.state.view ++ [.env e]) = .env e := by
    rw [← m.state.length_view]
    exact OnList.valueAt_length_succ ..
  -- an environment inside of that of the encoder
  have hb := State.Became.refl ho.prepared.base_le ho.prepared.top_le
  have htop := hb.top
  rw [ho.view] at hb
  rw [ho.view, List.length_append, List.length_singleton] at htop
  have hparent : State.parentOf (OnList.valueAt ((m.state.size : ℤ) + 1) (m.state.view ++ [.env e])) =
      .ok (some e) := by
    rw [houter, State.parentOf, State.envOf, Value.env?_env ho.lt, Value.isNil_of_object? (Value.object?_env ho.lt)]
    rfl
  have hroom := room_of_newClosureEnv hq (by rw [List.length_append, List.length_singleton]; omega) hb hparent hends
  obtain ⟨u, hb, hends⟩ := (gives_newClosureEnv hb hparent hroom).rest hends
  rw [List.append_assoc, hinner] at hb
  -- the map is filled
  obtain ⟨u, hb, hends⟩ := (gives_newTable (m := k.withState u) hb alphabet.utf8ByteSize).rest hends
  rw [ht] at hends
  have htable? : (Value.table t).table? = some t := by rw [Value.table?_table, Nat.mod_eq_of_lt htlt]
  have henv := (@Heap.Sound.newEnv _ _ ho.prepared.sound.heap (some e) fun p hp =>
    Option.some.inj hp ▸ ho.prepared.sound.heap.live_value ho.alphabet.inUse).1
  have hentry : t < ((k.state.heap.newEnv (some e)).2.newTable alphabet.utf8ByteSize).2.tables.items.size :=
    ht ▸ (henv.sound.orderly.wellFormed.tables.alloc_index .empty).2
  obtain ⟨u, hb, hends⟩ := (gives_fillMap (m := k.withState u) hb htable? hentry codes (i := 0)
    length_codes_le).rest hends
  rw [← ht] at hb
  exact ⟨u, hb, hends⟩

/-- What the second part does to the heap and the frame. -/
lemma exists_withMap {inner t : ℕ} (ho : OuterOpened (r + 1) m k encoder e c)
    (hinner : (k.state.heap.newEnv (some e)).1 = inner) (hlt : inner < Value.payloadLimit)
    (ht : ((k.state.heap.newEnv (some e)).2.newTable alphabet.utf8ByteSize).1 = t) (htlt : t < Value.payloadLimit)
    (hq : HasStack 2 k.state q) (hends : Ends enter (openInner m.state.size encoder) k q n) :
    ∃ u, k.state.Became (withMap k.state.heap e) (k.state.view ++ [.env inner]) u ∧
      Ends enter (define "base64.decode" decode.program #[.env inner] >>= fun decoder => do
        ask (.setTop m.state.size)
        publish encoder decoder) (k.withState u) q n := by
  have hindex (l : List Value) :
      OnList.valueAt ((m.state.size : ℤ) + 2) (m.state.view ++ .env e :: .env inner :: l) = .env inner := by
    have hvalue := OnList.valueAt_length_succ (m.state.view ++ [.env e]) l (.env inner)
    rwa [List.append_assoc, List.length_append, m.state.length_view, List.length_singleton, Nat.cast_succ,
      add_assoc] at hvalue
  have htop := (State.Became.refl ho.prepared.base_le ho.prepared.top_le).top
  rw [ho.view, List.length_append, List.length_singleton] at htop
  obtain ⟨u, hb, hends⟩ := exists_withTable ho hinner ht htlt (hq.imp_left fun h => by omega) hends
  -- the map comes into the environment
  have hroom := room_of_push (m := k.withState u) hq
    (by simp only [List.length_append, List.length_cons, List.length_nil]; omega) hb hends
  obtain ⟨u, hb, hends⟩ := (gives_push (m := k.withState u) hb _ hroom).rest hends
  have henv : (OnList.valueAt ((m.state.size : ℤ) + 2)
      (m.state.view ++ [.env e, .env inner] ++ [.table t])).env? = some inner := by
    rw [List.append_assoc]
    exact (congrArg Value.env? (hindex _)).trans (Value.env?_env hlt)
  obtain ⟨u, hb, hends⟩ := (gives_storeCaptured (m := k.withState u) hb henv 0 mapSlot).rest hends
  obtain ⟨u, hb, hends⟩ := (gives_valueAt (m := k.withState u) hb ((m.state.size : ℤ) + 2)).rest hends
  have hvalue : OnList.valueAt ((m.state.size : ℤ) + 2) (m.state.view ++ [.env e, .env inner]) = .env inner := hindex []
  rw [hvalue] at hends
  rw [← ht] at hb
  rw [ho.view, List.append_assoc, ← hinner] at *
  exact ⟨u, hb, hends⟩

/-- The frame is cut to the values it has had in the machine `m`. -/
lemma gives_cut {l : List Value} (hk : Prepared r k) (hview : k.state.view = m.state.view ++ l) :
    Gives enter (ask (.setTop m.state.size)) k k.state () k.state.heap m.state.view := by
  have hb := State.Became.refl hk.base_le hk.top_le
  have htop := hb.top
  have hcut : OnList.setTop (stackLimit - k.state.base) m.state.size k.state.view = (.ok (), m.state.view) := by
    have hlimit := hk.top_le
    rw [hview, List.length_append] at htop
    rw [hview, ← m.state.length_view]
    exact OnList.setTop_length _ _ (by omega)
  exact gives_setTop hb hcut

/-- The frame is cut, and the machine is prepared then. -/
lemma exists_cut {l : List Value} {f : Unit → Routine σ Value} (hk : Prepared r k)
    (hview : k.state.view = m.state.view ++ l) (hends : Ends enter (ask (.setTop m.state.size) >>= f) k q n) :
    ∃ v, k.state.Became k.state.heap m.state.view v ∧ Prepared r (k.withState v) ∧
      Ends enter (f ()) (k.withState v) q n := by
  obtain ⟨v, hbv, hends⟩ := (gives_cut hk hview).rest hends
  refine ⟨v, hbv, hk.became hbv fun w hw => ?_, hends⟩
  rw [hview]
  exact List.mem_append_left _ hw

/-- **The second part is done** by an opening that has room on the stack or succeeds. -/
lemma exists_inner (ho : OuterOpened (r + 1) m k encoder e c) (hq : HasStack 2 k.state q)
    (hends : Ends enter (openInner m.state.size encoder) k q n) :
    ∃ k' decoder inner t, InnerOpened r k' encoder decoder e c inner t ∧ Leads k k' ∧
      k'.state.top + 1 = k.state.top ∧ k'.state.view = m.state.view ∧ Ends enter (publish encoder decoder) k' q n := by
  obtain ⟨hk, hleads, hview, htop, hruns, halphabet, hlt⟩ := ho
  have ho : OuterOpened (r + 1) m k encoder e c := ⟨hk, hleads, hview, htop, hruns, halphabet, hlt⟩
  obtain ⟨hgrows, hmap⟩ := grows_withMap hk.sound.heap halphabet.inUse
  obtain ⟨hstrings, htables, henvs, huserdata⟩ := size_withMap k.state.heap e
  obtain ⟨inner, hinner⟩ : ∃ i, (k.state.heap.newEnv (some e)).1 = i := ⟨_, rfl⟩
  obtain ⟨t, ht⟩ : ∃ i, ((k.state.heap.newEnv (some e)).2.newTable alphabet.utf8ByteSize).1 = i := ⟨_, rfl⟩
  rw [hinner, ht] at hmap
  have hadds : k.state.heap.AddsOnly (fun _ => True) (withMap k.state.heap e) := hmap.adds.mono fun _ _ => trivial
  have hinnerlt : inner < Value.payloadLimit := by
    have hlt := hmap.inUse.lt_size
    have hroom := hk.envs
    omega
  have htlt : t < Value.payloadLimit := by
    have hlt := hmap.inUseTable.lt_size
    have hroom := hk.tables
    omega
  obtain ⟨u, hb, hends⟩ := exists_withMap ho hinner hinnerlt ht htlt hq hends
  have hheap : u.heap = withMap k.state.heap e := hb.heap
  have hnatives : u.natives = k.state.natives := hb.natives
  -- the decoder is made
  have hk₁ : Prepared r ((k.withState u).addFunction "base64.decode" decode.program #[.env inner]) := by
    refine hk.addFunction _ _ _ hb hgrows (live_concat hk.sound hgrows hmap.inUse) (fun v hv => ?_)
      (by rw [hstrings]; omega) htables henvs huserdata
    exact List.mem_append_right _ (List.mem_singleton.2 (Array.mem_singleton.1 hv))
  have hdecoder := runs_addFunction (m := k.withState u) "base64.decode" decode.program
    (hk.bodies.trans (congrArg Array.size hnatives.symm))
    (by have hroom := hk.natives; rw [Machine.state_withState, hnatives]; omega) hinnerlt
  have hencoder := (hruns.congr (k := k.withState u) rfl hnatives).addFunction "base64.decode" decode.program
    #[.env inner]
  have hends := (ends_define "base64.decode" decode.program #[.env inner]).rest hends
  have hleads₁ := (leads_of_became hb hadds).addFunction "base64.decode" decode.program #[.env inner]
  obtain ⟨k₁, hk₁eq⟩ : ∃ k₁, (k.withState u).addFunction "base64.decode" decode.program #[.env inner] = k₁ := ⟨_, rfl⟩
  have hheap₁ : k₁.state.heap = withMap k.state.heap e := hk₁eq ▸ hheap
  have hview₁ : k₁.state.view = m.state.view ++ [.env e, .env inner] := by
    have hview₁ : k₁.state.view = k.state.view ++ [.env inner] := hk₁eq ▸ hb.view
    rw [hview₁, hview, List.append_assoc]
    rfl
  rw [hk₁eq] at hk₁ hdecoder hencoder hends hleads₁
  obtain ⟨v, hb₂, hk₂, hends⟩ := exists_cut hk₁ hview₁ hends
  have hheap₂ : v.heap = withMap k.state.heap e := hb₂.heap.trans hheap₁
  rw [← hheap₂] at hmap
  have hglobals : v.globals = k.state.globals := hb₂.globals.trans (hk₁eq ▸ hb.globals)
  have hregistry : v.registry = k.state.registry := hb₂.registry.trans (hk₁eq ▸ hb.registry)
  refine ⟨k₁.withState v, _, inner, t, ⟨hk₂, hencoder.congr rfl hb₂.natives, hdecoder.congr rfl hb₂.natives,
    halphabet.adds hmap.adds, hmap.slot, ?_⟩, hleads₁.trans (leads_of_became hb₂ (.refl _)), ?_, hb₂.view, hends⟩
  · exact sealed_of_holdsNewMap hk.sound hmap hk₂.sound hglobals hregistry hk₂.strings hk₂.tables
  · have hbefore := (State.Became.refl hk.base_le hk.top_le).top
    have hbase : k₁.state.base = k.state.base := hk₁eq ▸ hb.base
    rw [hview, List.length_append, List.length_singleton] at hbefore
    rw [Machine.state_withState, hb₂.top, hbase]
    omega

end Base64

end ScriptCore
