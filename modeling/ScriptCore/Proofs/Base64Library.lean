import ScriptCore.Proofs.Base64Calls
import ScriptCore.Proofs.Isolation

set_option relaxedAutoImplicit false
set_option autoImplicit false

/-!
# The library base 64 in a machine

The library is there as two functions whose environments hold the alphabet and the map of the decoder. As long
as these are what they were, whatever else is done to the machine, the functions are called with strings and
answer with strings.

## Main definitions

* `ScriptCore.Base64.Installed` — machines in which the functions have what they need.
* `ScriptCore.Base64.Untouched` — machines in which what the functions have captured is as it was.
* `ScriptCore.Base64.answer` — what a function answers when it is called with a string.

## Main results

* `ScriptCore.Base64.Installed.untouched` — what is not touched stays installed.
* `ScriptCore.Base64.Installed.answer_encode`, `ScriptCore.Base64.Installed.answer_decode` — calls.
-/

namespace ScriptCore

/-! ## Strings -/

namespace Heap

variable {h : Heap}

/-- Interning leaves all objects in use as they are. -/
lemma sameEntry_intern (hf : h.FreeWellFormed) (hi : h.Interning) (c : List UInt8) {o : Object}
    (ho : h.InUse o) : h.SameEntry (h.intern c).2 o := by
  by_cases hc : ∃ i, h.HoldsString i c
  · obtain ⟨i, hc⟩ := hc
    rw [hi.intern_of_holdsString hc]
    cases o <;> rfl
  · refine (changesOnly_intern hf hi c).same o ho fun heq => ?_
    exact (hi.intern_of_new fun i hic => hc ⟨i, hic⟩).1 (heq ▸ ho)

end Heap

/-- What can be reached is in use. -/
lemma State.Sound.inUse_of_reaches {s : State} (hs : s.Sound) {o : Object} (ho : s.Reaches o) : s.heap.InUse o := by
  induction ho with
  | root hv ho => exact (hs.root _ hv).object _ ho
  | step hr href ho ih => exact (hs.heap.reference _ _ ih href).object _ ho

/-- The content of a string that has been interned. -/
lemma State.bytes?_intern {s : State} {h : Heap} (hi : h.Interning) {c : List UInt8}
    (hroom : h.strings.items.size < Value.payloadLimit) (hs : s.heap = (h.intern c).2) :
    s.bytes? (.string (h.intern c).1) = some c := by
  rw [bytes?, Value.string?_string (h.index_intern_lt hi c hroom), hs]
  exact (hi.holdsString_index c).content

namespace Base64

variable {σ : Type} {m n : Machine σ}

/-! ## The functions and what they have captured -/

/-- The function `f` has the given name, runs `body`, and has captured the environment `e`. -/
def Runs (m : Machine σ) (f : Value) (name : String) (body : HostProgram σ) (e : ℕ) : Prop :=
  ∃ i native, f.function? = some i ∧ m.bodies[i]? = some body ∧ m.state.natives[i]? = some native ∧
    native.name = name ∧ (native.upvalues.getD 0 .nil).env? = some e

/-- **The library is installed**: the encoder has the alphabet in its environment, and the decoder the map from
its characters to their positions. -/
structure Installed (encoder decoder : Value) (m : Machine σ) : Prop where
  encodes : ∃ e, Runs m encoder "base64.encode" encode.program e ∧
    m.state.bytes? (m.state.heap.envGet e 0 alphabetSlot) = some codes
  decodes : ∃ e, Runs m decoder "base64.decode" decode.program e ∧ HoldsMap m.state (m.state.heap.envGet e 0 mapSlot)

/-- What functions have captured: all that can be reached from their upvalues. -/
def Captured (fs : List Value) (m : Machine σ) : Object → Prop :=
  m.state.heap.Reachable fun v =>
    ∃ f ∈ fs, ∃ i native, f.function? = some i ∧ m.state.natives[i]? = some native ∧ v ∈ native.upvalues

/-- **What functions have captured is not touched** from one machine to another one: these functions are what
they were, and every object they have captured has the entry it had. -/
structure Untouched (fs : List Value) (m n : Machine σ) : Prop where
  body : ∀ f ∈ fs, ∀ i, f.function? = some i → n.bodies[i]? = m.bodies[i]?
  native : ∀ f ∈ fs, ∀ i, f.function? = some i → n.state.natives[i]? = m.state.natives[i]?
  entry : ∀ o, Captured fs m o → m.state.heap.SameEntry n.state.heap o

/-- A function of which nothing is touched has captured the same environment, and reads the same there. -/
lemma Untouched.runs {fs : List Value} (hu : Untouched fs m n) {f : Value} (hf : f ∈ fs)
    {name : String} {body : HostProgram σ} {e : ℕ} (hr : Runs m f name body e) :
    Runs n f name body e ∧ Captured fs m (.env e) ∧
      ∀ slot, n.state.heap.envGet e 0 slot = m.state.heap.envGet e 0 slot := by
  obtain ⟨i, native, hi, hbody, hnative, hname, he⟩ := hr
  have hcaptured : Captured fs m (.env e) := by
    refine .root ⟨f, hf, i, native, hi, hnative, ?_⟩ (Value.object?_of_env? he)
    rw [Array.getD_eq_getD_getElem?] at he ⊢
    rcases hv : native.upvalues[0]? with _ | v
    · rw [hv] at he
      cases he
    · exact Array.mem_of_getElem? hv
  refine ⟨⟨i, native, hi, (hu.body f hf i hi).trans hbody, (hu.native f hf i hi).trans hnative, hname, he⟩, hcaptured,
    fun slot => ?_⟩
  have hentry : n.state.heap.envs.get? e = m.state.heap.envs.get? e := hu.entry _ hcaptured
  simp only [Heap.envGet, Heap.envAbove?, Option.bind_some, hentry]

/-- What is in a slot of an environment has been captured with it. -/
lemma captured_envGet {fs : List Value} {e slot : ℕ} (he : Captured fs m (.env e)) {o : Object}
    (ho : (m.state.heap.envGet e 0 slot).object? = some o) : Captured fs m o := by
  have hget : m.state.heap.envGet e 0 slot =
      ((m.state.heap.envs.get? e).map (·.get slot)).getD .nil := by
    rw [Heap.envGet, Heap.envAbove?, Option.bind_some]
    cases m.state.heap.envs.get? e <;> rfl
  cases henv : m.state.heap.envs.get? e with
  | none =>
    rw [hget, henv, Option.map_none, Option.getD_none, Value.isPlain_nil.object] at ho
    cases ho
  | some env =>
    rw [hget, henv, Option.map_some, Option.getD_some, Env.get, Array.getD_eq_getD_getElem?] at ho
    rcases hv : env.slots[slot]? with _ | v <;> rw [hv] at ho
    · rw [Option.getD_none, Value.isPlain_nil.object] at ho
      cases ho
    · exact .step he (.slot henv (Array.mem_of_getElem? hv)) ho

lemma Untouched.refl (fs : List Value) (m : Machine σ) : Untouched fs m m :=
  ⟨fun _ _ _ _ => rfl, fun _ _ _ _ => rfl, fun o _ => by cases o <;> rfl⟩

/-- The content of a string that has been captured stays. -/
lemma Untouched.bytes? {fs : List Value} (hu : Untouched fs m n) {v : Value}
    (hv : ∀ o, v.object? = some o → Captured fs m o) : n.state.bytes? v = m.state.bytes? v := by
  rw [State.bytes?, State.bytes?]
  cases hi : v.string? with
  | none => rfl
  | some i => exact hu.entry _ (hv _ (Value.object?_of_string? hi))

/-- The entries of a table that has been captured stay. -/
lemma Untouched.rawGet {fs : List Value} (hu : Untouched fs m n) {v : Value}
    (hv : ∀ o, v.object? = some o → Captured fs m o) (key : Value) :
    n.state.rawGet v key = m.state.rawGet v key := by
  rw [State.rawGet, State.rawGet]
  cases hi : v.table? with
  | none => rfl
  | some i =>
    have hentry : n.state.heap.tables.get? i = m.state.heap.tables.get? i :=
      hu.entry _ (hv _ (Value.object?_of_table? hi))
    simp only [Heap.tableGet, hentry]

/-- **What is not touched stays installed.** -/
theorem Installed.untouched {encoder decoder : Value} (h : Installed encoder decoder m)
    (hu : Untouched [encoder, decoder] m n) : Installed encoder decoder n := by
  obtain ⟨⟨e₁, hruns₁, hcodes⟩, ⟨e₂, hruns₂, hmap⟩⟩ := h
  obtain ⟨hruns₁', hcaptured₁, hget₁⟩ := hu.runs List.mem_cons_self hruns₁
  obtain ⟨hruns₂', hcaptured₂, hget₂⟩ := hu.runs (List.mem_cons_of_mem _ List.mem_cons_self) hruns₂
  refine ⟨⟨e₁, hruns₁', ?_⟩, ⟨e₂, hruns₂', fun c => ?_⟩⟩
  · rw [hget₁, hu.bytes? fun o ho => captured_envGet hcaptured₁ ho]
    exact hcodes
  · rw [hget₂, hu.rawGet fun o ho => captured_envGet hcaptured₂ ho]
    exact hmap c

/-- What functions have captured can be reached. -/
lemma Captured.reaches {fs : List Value} {o : Object} (ho : Captured fs m o) : m.state.Reaches o := by
  induction ho with
  | root hv ho =>
    obtain ⟨f, -, i, native, -, hnative, hv⟩ := hv
    exact .root (.upvalue (Array.mem_of_getElem? hnative) hv) ho
  | step hr href ho ih => exact .step ih href ho

/-- A collection touches nothing that functions have captured. -/
lemma untouched_collect (fs : List Value) (hs : m.state.Sound) :
    Untouched fs m (m.withState m.state.collect) := by
  have hc := (m.state.collect_exact hs.heap.orderly.wellFormed hs.heap.orderly.unmarked).1
  exact ⟨fun _ _ _ _ => rfl, fun _ _ i _ => congrArg (·[i]?) hc.natives, fun o ho => hc.kept o ho.reaches⟩

/-- Nothing that functions have captured is touched if all objects in use stay as they are. -/
lemma untouched_of_sameEntry (fs : List Value) (hs : m.state.Sound) {t : State} (hnatives : t.natives = m.state.natives)
    (hsame : ∀ o, m.state.heap.InUse o → m.state.heap.SameEntry t.heap o) : Untouched fs m (m.withState t) :=
  ⟨fun _ _ _ _ => rfl, fun _ _ i _ => congrArg (·[i]?) hnatives,
    fun o ho => hsame o (hs.inUse_of_reaches ho.reaches)⟩

/-- A string is made beside what functions have captured. -/
lemma untouched_intern (fs : List Value) (hs : m.state.Sound) {t : State} {c : List UInt8}
    (hheap : t.heap = (m.state.heap.intern c).2) (hnatives : t.natives = m.state.natives) :
    Untouched fs m (m.withState t) := by
  refine untouched_of_sameEntry fs hs hnatives fun o ho => ?_
  rw [hheap]
  exact Heap.sameEntry_intern hs.heap.orderly.wellFormed hs.heap.orderly.interning c ho

/-! ## Calls -/

/-- **What a function answers** when it is called with a string: the content of the string it returns, if it
returns one. Calls are nested up to the given number of levels below this one. -/
def answer (levels : ℕ) (f : Value) (content : List UInt8) : MachineM σ (Option (List UInt8)) := do
  let argument ← MachineM.lift (State.internBytes content)
  let result ← MachineM.pushAndCall (HostProgram.runWithin (levels + 1)) f [argument]
  return (← MachineM.state).bytes? result

/-- **Room for a call**: for `r` more strings, for a function, its argument and two values of its own on the
stack, and for one more frame. -/
structure HasRoom (r : ℕ) (m : Machine σ) : Prop where
  strings : m.state.heap.strings.items.size + r ≤ Value.payloadLimit
  base : m.state.base ≤ m.state.top
  stack : m.state.top + 4 ≤ stackLimit
  frames : m.state.frames.length < State.maxFrames

lemma HasRoom.mono {r r' : ℕ} (h : HasRoom r m) (hle : r' ≤ r) : HasRoom r' m :=
  ⟨by have := h.strings; omega, h.base, h.stack, h.frames⟩

/-- **A function has been called with a string** `v` with the given content: this is the only value in the frame
of the machine `k`, and there is room for two more of them. -/
structure Called (m : Machine σ) (f : Value) (name : String) (content : List UInt8) (e : ℕ) (k : Machine σ)
    (v : Value) : Prop where
  untouched : Untouched [f] m (m.withState k.state)
  became : k.state.Became (m.state.heap.intern content).2 [v] k.state
  bytes : k.state.bytes? v = some content
  env : (k.state.upvalue 1).env? = some e
  name : k.state.currentName? = some name
  room : k.state.base + 3 ≤ stackLimit

section Calls

variable {f : Value} {name : String} {x : Routine σ ℕ} {e : ℕ} {content : List UInt8}

/-- A call with a string is one with an argument that is made first. -/
lemma exists_argument (levels : ℕ) (f : Value) (content : List UInt8) (hbase : m.state.base ≤ m.state.top)
    (htop : m.state.top ≤ stackLimit) :
    ∃ s, m.state.Became (m.state.heap.intern content).2 m.state.view s ∧ s.top = m.state.top ∧
      (answer levels f content : MachineM σ _) m = (do
        let result ← MachineM.pushAndCall (HostProgram.runWithin (levels + 1)) f
          [.string (m.state.heap.intern content).1]
        return (← MachineM.state).bytes? result) (m.withState s) := by
  obtain ⟨s, hintern, hb⟩ := (State.Became.refl hbase htop).onHeap
    (f := fun h => (.ok (Value.string (h.intern content).1), (h.intern content).2)) rfl
  refine ⟨s, hb, hb.top_eq hbase, ?_⟩
  rw [answer, bind_apply, MachineM.lift_apply, State.internBytes_eq, hintern, andThen_ok]

/-- What a function starts to run with, if its argument is a string that has been made for it. -/
lemma called_of_starts {i : ℕ} {native : Native} {s : State} {k : Machine σ} (hs : m.state.Sound)
    (hroom : HasRoom 2 m) (hnative : m.state.natives[i]? = some native) (hname : native.name = name)
    (he : (native.upvalues.getD 0 .nil).env? = some e)
    (hb : m.state.Became (m.state.heap.intern content).2 m.state.view s) (htop : s.top = m.state.top)
    (hk : (m.withState s).Starts i [.string (m.state.heap.intern content).1] k) :
    Called m f name content e k (.string (m.state.heap.intern content).1) := by
  have hstrings := hroom.strings
  have hstack := hroom.stack
  have hkheap : k.state.heap = (m.state.heap.intern content).2 := hk.started.heap.trans hb.heap
  have hstarted := hk.started
  rw [Machine.state_withState, hb.heap] at hstarted
  have hcurrent : k.state.current? = some native := by
    rw [hk.current, Machine.state_withState, hb.natives, hnative]
  refine ⟨untouched_intern [f] hs hkheap (hk.natives.trans hb.natives), hstarted,
    State.bytes?_intern hs.heap.orderly.interning (by omega) hkheap, ?_, ?_, ?_⟩
  · rw [State.upvalue, hcurrent]
    exact he
  · rw [State.currentName?, hcurrent, Option.map_some, hname]
  · rw [hk.base, Machine.state_withState]
    omega

/-- A function that leaves one string in its frame answers with the content of that. -/
lemma answer_of_gives (levels : ℕ) {reply : List UInt8} (hs : m.state.Sound) (hroom : HasRoom 2 m)
    (hruns : Runs m f name x.program e)
    (hgives : ∀ k v, Called m f name content e k v → Routine.Gives (HostProgram.runWithin levels) x k k.state 1
      ((m.state.heap.intern content).2.intern reply).2
      [.string ((m.state.heap.intern content).2.intern reply).1]) :
    ∃ t, answer levels f content m = (.ok (some reply), m.withState t) ∧
      m.state.Became ((m.state.heap.intern content).2.intern reply).2 m.state.view t := by
  have hroom' := hroom
  obtain ⟨hstrings, hbase, hstack, hframes⟩ := hroom
  obtain ⟨i, native, hf, hbody, hnative, hname, he⟩ := hruns
  obtain ⟨s, hb, htop, hanswer⟩ := exists_argument levels f content hbase (by omega)
  have hi := hs.heap.orderly.interning
  -- the function runs in a frame with the argument only
  obtain ⟨t, hcall, hbt⟩ : ∃ t, MachineM.pushAndCall (HostProgram.runWithin (levels + 1)) f
      [.string (m.state.heap.intern content).1] (m.withState s) =
        (.ok (.string ((m.state.heap.intern content).2.intern reply).1), (m.withState s).withState t) ∧
      (m.withState s).state.Became ((m.state.heap.intern content).2.intern reply).2 (m.withState s).state.view t := by
    refine MachineM.pushAndCall_of_gives (m := m.withState s) hf hbody hb.base_le
      (by rw [Machine.state_withState]; omega) (by rw [Machine.state_withState, hb.frames]; exact hframes)
      fun k hk => ?_
    obtain ⟨u, hends, hbu⟩ := hgives k _ (called_of_starts hs hroom' hnative hname he hb htop hk)
    exact ⟨u, hends.run_program, hbu⟩
  rw [Machine.state_withState, hb.view] at hbt
  refine ⟨t, ?_, hb.trans hbt⟩
  have hlength := ((m.state.heap.intern content).2.size_strings_intern_le reply)
  have hreply := State.bytes?_intern (hi.intern content) (c := reply) (s := t)
    (by have := m.state.heap.size_strings_intern_le content; omega) hbt.heap
  have hstate : (MachineM.state : MachineM σ State) (m.withState t) = (.ok t, m.withState t) := rfl
  rw [hanswer, bind_apply, hcall, andThen_ok, bind_apply, Machine.withState_withState, hstate, andThen_ok, hreply]
  rfl

/-- A function that fails has no answer but its error. Its argument has been made, and the frame of the caller is
as before. -/
lemma answer_of_fails (levels : ℕ) {err : RuntimeError} (hs : m.state.Sound) (hroom : HasRoom 2 m)
    (hruns : Runs m f name x.program e)
    (hfails : ∀ k v, Called m f name content e k v →
      Routine.Fails (HostProgram.runWithin levels) x k k.state err (m.state.heap.intern content).2) :
    ∃ t, answer levels f content m = (.error err, m.withState t) ∧
      m.state.Became (m.state.heap.intern content).2 m.state.view t := by
  have hroom' := hroom
  obtain ⟨hstrings, hbase, hstack, hframes⟩ := hroom
  obtain ⟨i, native, hf, hbody, hnative, hname, he⟩ := hruns
  obtain ⟨s, hb, htop, hanswer⟩ := exists_argument levels f content hbase (by omega)
  obtain ⟨t, hcall, hbt⟩ : ∃ t, MachineM.pushAndCall (HostProgram.runWithin (levels + 1)) f
      [.string (m.state.heap.intern content).1] (m.withState s) = (.error err, (m.withState s).withState t) ∧
      (m.withState s).state.Became (m.state.heap.intern content).2 (m.withState s).state.view t := by
    refine MachineM.pushAndCall_of_fails (m := m.withState s) hf hbody hb.base_le
      (by rw [Machine.state_withState]; omega) (by rw [Machine.state_withState, hb.frames]; exact hframes)
      fun k hk => ?_
    obtain ⟨u, l, hends, hbu⟩ := hfails k _ (called_of_starts hs hroom' hnative hname he hb htop hk)
    exact ⟨u, l, hends.run_program_error, hbu⟩
  rw [Machine.state_withState, hb.view] at hbt
  refine ⟨t, ?_, hb.trans hbt⟩
  rw [hanswer, bind_apply, hcall, andThen_error]
  rfl

end Calls

variable {encoder decoder : Value}

/-- **The encoder answers** with the standard text of what it is called with. -/
theorem Installed.answer_encode (h : Installed encoder decoder m) (hs : m.state.Sound) (hroom : HasRoom 2 m)
    (levels : ℕ) (x : List UInt8) : ∃ t, answer levels encoder x m = (.ok (some (standardText x)), m.withState t) ∧
      m.state.Became ((m.state.heap.intern x).2.intern (standardText x)).2 m.state.view t := by
  obtain ⟨e, hruns, hcodes⟩ := h.encodes
  refine answer_of_gives levels hs hroom hruns fun k v hk => ?_
  obtain ⟨-, hcaptured, hget⟩ := hk.untouched.runs List.mem_cons_self hruns
  rw [← hk.untouched.bytes? fun o ho => captured_envGet hcaptured ho, ← hget] at hcodes
  exact gives_encode hk.became hk.bytes hk.env hcodes hk.room

/-- The decoder starts to run with the map it has captured. -/
lemma Called.holdsMap {k : Machine σ} {v : Value} {content : List UInt8} {e : ℕ} {name : String}
    {body : HostProgram σ} (hk : Called m decoder name content e k v) (hruns : Runs m decoder name body e)
    (hmap : HoldsMap m.state (m.state.heap.envGet e 0 mapSlot)) :
    HoldsMap k.state (k.state.heap.envGet e 0 mapSlot) := by
  obtain ⟨-, hcaptured, hget⟩ := hk.untouched.runs List.mem_cons_self hruns
  intro c
  have hread := (hk.untouched.rawGet (fun o ho => captured_envGet hcaptured ho) _).trans (hmap c)
  rwa [← hget] at hread

/-- **The decoder answers** with what is read in the text it is called with. -/
theorem Installed.answer_decode (h : Installed encoder decoder m) (hs : m.state.Sound) (hroom : HasRoom 2 m)
    (levels : ℕ) {x y : List UInt8} (hread : readText y = .ok x) :
    ∃ t, answer levels decoder y m = (.ok (some x), m.withState t) ∧
      m.state.Became ((m.state.heap.intern y).2.intern x).2 m.state.view t := by
  obtain ⟨e, hruns, hmap⟩ := h.decodes
  exact answer_of_gives levels hs hroom hruns fun k v hk =>
    gives_decode hk.became hk.bytes hk.env hk.room (hk.holdsMap hruns hmap) hread

/-- **The decoder fails** with what is said of the text it is called with. -/
theorem Installed.answer_decode_error (h : Installed encoder decoder m) (hs : m.state.Sound) (hroom : HasRoom 2 m)
    (levels : ℕ) {y : List UInt8} {message : String} (hread : readText y = .error message) :
    ∃ t, answer levels decoder y m = (.error (.custom ("base64.decode: " ++ message)), m.withState t) ∧
      m.state.Became (m.state.heap.intern y).2 m.state.view t := by
  obtain ⟨e, hruns, hmap⟩ := h.decodes
  refine answer_of_fails levels hs hroom hruns fun k v hk => ?_
  have hraised : k.state.raised message = .custom ("base64.decode: " ++ message) := by
    rw [State.raised, hk.name]
    rfl
  rw [← hraised]
  exact fails_decode hk.became hk.bytes hk.env hk.room (hk.holdsMap hruns hmap) hread

end Base64

end ScriptCore
