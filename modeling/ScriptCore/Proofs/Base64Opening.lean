import ScriptCore.Proofs.Base64Environments
import ScriptCore.Proofs.LibraryRegistration

set_option relaxedAutoImplicit false
set_option autoImplicit false

/-!
# Opening the library base 64

In the last part of its opening, the two functions of the library come into its table, which is found by way of
the registry and the globals. The map of the decoder is sealed off from there, so behind the opening the functions
have what they need. On a new machine the opening succeeds.

## Main definitions

* `ScriptCore.State.field` — what a table has under a name.
* `ScriptCore.Base64.Opened` — the library has been opened.

## Main results

* `ScriptCore.Base64.exists_opened` — what is there behind an opening.
* `ScriptCore.Base64.opens_of_bare` — where the library can be opened.
-/

namespace ScriptCore

/-! ## Looking up a name -/

namespace State

/-- What a table has under a name. -/
def field (table : Value) (name : String) : Action Value := do
  let key ← intern name
  return (← get).rawGet table key

/-- A name that is a string in use is looked up under this string, and nothing changes. -/
lemma field_of_holdsString {s : State} (hs : s.Sound) {table : Value} {name : String} {i : ℕ}
    (hi : s.heap.HoldsString i (Text.bytes name)) : field table name s = (.ok (s.rawGet table (.string i)), s) := by
  have hintern : intern name s = (.ok (.string i), s) := by
    rw [intern, internBytes_eq, onHeap, hs.heap.orderly.interning.intern_of_holdsString hi]
  rw [field, bind_apply, hintern, andThen_ok, bind_apply, get_apply, andThen_ok]
  rfl

end State

namespace Base64

open Routine

variable {σ : Type} {enter : HostProgram σ → MachineM σ Nat} {m n k : Machine σ} {r : ℕ}

/-! ## The third part -/

/-- What the third part does on the state. -/
def publishing (encode decode : Value) : Action Value := do
  let table ← State.registerLibrary "base64" 2
  let key ← State.intern "encode"
  State.rawSet table key encode
  let key ← State.intern "decode"
  State.rawSet table key decode
  return table

lemma performs_publish (encode decode : Value) :
    Performs enter (publish encode decode) (publishing encode decode) :=
  (performs_ask (.registerLibrary "base64" 2)).bind fun table =>
    (performs_ask (.intern (Text.bytes "encode"))).bind fun key =>
      (performs_ask (.rawSet table key encode)).bind fun _ =>
        (performs_ask (.intern (Text.bytes "decode"))).bind fun key =>
          (performs_ask (.rawSet table key decode)).bind fun _ => performs_pure table

/-- A function that runs a program is live, and outside of all tables. -/
lemma Runs.outside {f : Value} {name : String} {body : HostProgram σ} {e : ℕ} (h : Runs k f name body e) (t : ℕ) :
    State.Outside t f k.state ∧ f.isNil = false := by
  obtain ⟨i, native, hf, -, hnative, -, -⟩ := h
  have hobject : f.object? = none := by
    cases ho : f.object? with
    | none => rfl
    | some o =>
      rw [Value.function?_of_object? ho] at hf
      cases hf
  refine ⟨⟨⟨fun o ho => ?_, fun j hj => ?_⟩, fun ht => ?_⟩, ?_⟩
  · rw [hobject] at ho
    cases ho
  · rw [hf, Option.some.injEq] at hj
    exact hj ▸ (Array.getElem?_eq_some_iff.1 hnative).1
  · rw [Value.object?_of_table? ht] at hobject
    cases hobject
  · by_contra hnil
    rw [Bool.not_eq_false, Value.isNil, decide_eq_true_eq] at hnil
    rw [(Value.isPlain_of_tag_lt (hnil ▸ by decide)).function] at hf
    cases hf

variable {s : State} {t : ℕ} {T : Table} {encode' decode' : Value}

/-- **The functions come into the table of the library** under their names, outside of a table that is sealed
off. -/
lemma spares_publishing (hs : State.Sealed t T (r + 8) s)
    (hencode : State.Outside t encode' s) (hnil : encode'.isNil = false) (hdecode : State.Outside t decode' s)
    (hnil' : decode'.isNil = false) : State.Spares t T r (publishing encode' decode') s fun table u =>
      State.field table "encode" u = (.ok encode', u) ∧ State.field table "decode" u = (.ok decode', u) := by
  have hparts : (State.nameParts "base64").length = 1 := by decide +kernel
  refine (State.Spares.registerLibrary "base64" 2 (n := r + 2) (by rw [hparts]; exact hs)).bind ?_
  intro table u hu hsu htable
  refine (State.Spares.internBytes hu _).bind ?_
  rintro _ v hv huv ⟨i, rfl, hi, -⟩
  have hsv := hsu.trans huv
  refine (State.Spares.rawSet hv (htable.mono huv) (hv.sound.live_string hi) (hencode.mono hsv)).bind ?_
  intro _ w hw hvw hwget
  refine (State.Spares.internBytes hw _).bind ?_
  rintro _ x hx hwx ⟨j, rfl, hj, htables⟩
  refine (State.Spares.rawSet hx ((htable.mono huv).mono (hvw.trans hwx)) (hx.sound.live_string hj)
    (hdecode.mono (hsv.trans (hvw.trans hwx)))).bind ?_
  intro _ y hy hxy hyget
  -- both names are strings in use behind all of this, and not the same
  have hiy := hxy.heap.strings i _ (hwx.heap.strings i _ (hvw.heap.strings i _ hi))
  have hjy := hxy.heap.strings j _ hj
  have hne : (Value.string j).normalizeKey ≠ (Value.string i).normalizeKey := by
    rw [Value.normalizeKey_string, Value.normalizeKey_string]
    intro heq
    have hlt {i : ℕ} {c : List UInt8} (hi : y.heap.HoldsString i c) : i < Value.payloadLimit := by
      have hlt := hi.inUse.lt_size
      have hroom := hy.heap.strings
      omega
    have hij : j = i := by
      have hstring := @Object.value_inj (.string j) (.string i) (hlt hjy) (hlt hiy)
      exact Object.string.inj (hstring.1 heq)
    subst hij
    exact absurd (hiy.content_unique hjy) (by decide +kernel)
  have hgetx : x.rawGet table (.string i) = w.rawGet table (.string i) := by
    rw [State.rawGet, State.rawGet]
    simp only [Heap.tableGet, htables]
  refine State.Spares.pure hy ⟨?_, ?_⟩
  · rw [State.field_of_holdsString hy.sound hiy, hyget, if_neg hne, hgetx, hwget, if_pos rfl, hnil]
    rfl
  · rw [State.field_of_holdsString hy.sound hjy, hyget, if_pos rfl, hnil']
    rfl

/-- **The library has been opened**: its table has the two functions under their names, and these have what they
need. There are handles for all objects, and for `r` more strings. -/
structure Opened (r : ℕ) (table encoder decoder : Value) (n : Machine σ) : Prop where
  encode : State.field table "encode" n.state = (.ok encoder, n.state)
  decode : State.field table "decode" n.state = (.ok decoder, n.state)
  installed : Installed encoder decoder n
  sound : n.state.Sound
  fits : n.state.heap.Fits
  strings : n.state.heap.strings.items.size + r ≤ Value.payloadLimit

/-- **An opening that succeeds** leaves the library opened.

**Proof sketch.** The alphabet and the map are each in an environment of its own when the functions are
published. Publishing adds strings and tables only, and does not come across the map, since nothing in the
state has a handle of it but the environment of the decoder. -/
theorem exists_opened {table : Value} (hm : Prepared (r + 10) m)
    (hends : Ends enter openLibrary m (.ok table) n) :
    ∃ encoder decoder, Opened r table encoder decoder n := by
  obtain ⟨k, encoder, e, c, houter, hends⟩ := exists_outer hm (.inr ⟨table, rfl⟩) hends
  obtain ⟨k, decoder, inner, t, hinner, -, -, -, hends⟩ := exists_inner houter (.inr ⟨table, rfl⟩) hends
  obtain ⟨hk, hruns, hruns', halphabet, hslot, hmap⟩ := hinner
  obtain ⟨houtside, hnil⟩ := hruns.outside t
  obtain ⟨houtside', hnil'⟩ := hruns'.outside t
  obtain ⟨hresult, rfl⟩ := Ends.unique (performs_publish encoder decoder k) hends
  obtain ⟨u, hu⟩ : ∃ u, (publishing encoder decoder k.state).2 = u := ⟨_, rfl⟩
  obtain ⟨hsealed, hadds, hfields⟩ := spares_publishing hmap houtside hnil houtside' hnil' table u
    (Prod.ext hresult hu)
  have hget (e slot : ℕ) : u.heap.envGet e 0 slot = k.state.heap.envGet e 0 slot := by
    simp only [Heap.envGet, Heap.envAbove?, Option.bind_some, hadds.heap.envs]
  have hcodes := hadds.heap.strings c _ halphabet.codes
  have hstrings := hsealed.heap.strings
  have htables := hsealed.heap.tables
  rw [hu]
  refine ⟨encoder, decoder, hfields.1, hfields.2, ⟨⟨e, hruns.congr rfl hadds.natives, ?_⟩,
    ⟨inner, hruns'.congr rfl hadds.natives, fun d => ?_⟩⟩, hsealed.sound, fun o ho => ?_, hstrings⟩ <;>
    rw [Machine.state_withState] at *
  · have hlt := hcodes.inUse.lt_size
    rw [hget, halphabet.slot, State.bytes?, Value.string?_string (by omega)]
    exact hcodes.content
  · have hlt := hsealed.heap.inUse.lt_size
    rw [hget, hslot, State.rawGet, Value.table?_table, Nat.mod_eq_of_lt (by omega)]
    dsimp only
    rw [Heap.tableGet, hsealed.heap.entry]
    exact get_filled_codes d
  · have henvs := hk.envs
    have huserdata := hk.userdata
    rw [← hadds.heap.envs] at henvs
    rw [← hadds.heap.userdata] at huserdata
    cases o <;> (simp only [Heap.HasEntry, Object.index] at ho ⊢; omega)

/-! ## Opening on a new machine -/

lemma settles_publish (encode decode : Value) : Settles enter (publish encode decode) :=
  (settles_ask _).bind fun _ => (settles_ask _).bind fun _ => (settles_ask _).bind fun _ =>
    (settles_ask _).bind fun _ => (settles_ask _).bind fun _ => settles_pure _

lemma settles_openInner (size : ℕ) (encode : Value) : Settles enter (openInner size encode) :=
  (settles_ask _).bind fun _ => (settles_ask _).bind fun _ => (settles_fillMap _ _ _).bind fun _ =>
    (settles_ask _).bind fun _ => (settles_ask _).bind fun _ => (settles_ask _).bind fun _ =>
      (settles_define _ _ _).bind fun _ => (settles_ask _).bind fun _ => settles_publish _ _

lemma settles_openLibrary : Settles enter openLibrary :=
  (settles_ask _).bind fun _ => (settles_ask _).bind fun _ => (settles_ask _).bind fun _ =>
    (settles_ask _).bind fun _ => (settles_ask _).bind fun _ => (settles_ask _).bind fun _ =>
      (settles_ask _).bind fun _ => (settles_ask _).bind fun _ => (settles_define _ _ _).bind fun _ =>
        settles_openInner _ _

/-- The functions are published in a state without libraries. -/
lemma succeeds_publishing {s : State} (hs : s.Sound) (hb : s.Bare) (htop : s.top < stackLimit)
    (encode decode : Value) : State.Succeeds (publishing encode decode) s fun _ u =>
      u.top = s.top + 1 ∧ u.frames = s.frames := by
  have hname : State.nameParts "base64" = ["base64"] := by decide +kernel
  refine (State.succeeds_registerLibrary hname 2 hs hb htop).bind fun table u ⟨⟨i, hi, hlt⟩, hutop, hu⟩ => ?_
  refine (State.succeeds_intern u _).bind fun key v ⟨hkey, hv⟩ => ?_
  refine (State.succeeds_rawSet hkey hi (by rwa [hv.tables])).bind fun _ w ⟨hsize, hw⟩ => ?_
  refine (State.succeeds_intern w _).bind fun key' x ⟨hkey', hx⟩ => ?_
  refine (State.succeeds_rawSet hkey' hi (by rwa [hx.tables, hsize, hv.tables])).bind fun _ y ⟨_, hy⟩ => ?_
  exact ⟨table, y, rfl, hy.top.trans (hx.top.trans (hw.top.trans (hv.top.trans hutop))),
    hy.frames.trans (hx.frames.trans (hw.frames.trans (hv.frames.trans hu)))⟩

/-- A state that is led to from one without libraries is one. -/
lemma bare_of_leads (hs : m.state.Sound) (hb : m.state.Bare) (h : Leads m k) : k.state.Bare := by
  obtain ⟨⟨i, l, hi, hget, hl, hblank⟩, hglobals, hglobal⟩ := hb
  have hregistry := (hs.root _ .registry).object _ (Value.object?_of_table? (Value.table?_table _))
  rw [State.rawGet, Value.table?_table] at hget
  have hlive {t : ℕ} (ht : t < Value.payloadLimit) (hv : m.state.heap.Live m.state.natives.size (.table t)) :
      m.state.heap.InUse (.table t) := by
    refine hv.object _ (Value.object?_of_table? ?_)
    rw [Value.table?_table, Nat.mod_eq_of_lt ht]
  have hkept {t : ℕ} (ht : m.state.heap.InUse (.table t)) (hblank : m.state.IsBlank t) : k.state.IsBlank t := by
    have hsame : k.state.heap.tables.get? t = m.state.heap.tables.get? t := h.adds.same _ ht
    rw [State.IsBlank, hsame]
    exact hblank
  refine ⟨⟨i, l, ⟨h.adds.inUse _ hi.inUse, ?_⟩, ?_, hl, hkept (hlive hl ?_) hblank⟩, ?_⟩
  · have hsame : k.state.heap.strings.get? i = m.state.heap.strings.get? i := h.adds.same _ hi.inUse
    rw [hsame]
    exact hi.content
  · have hsame : k.state.heap.tables.get? (m.state.registry % Value.payloadLimit) =
        m.state.heap.tables.get? (m.state.registry % Value.payloadLimit) := h.adds.same _ hregistry
    rw [h.registry, State.rawGet, Value.table?_table, ← hget]
    simp only [Heap.tableGet, hsame]
  · rw [← hget]
    exact hs.heap.live_tableGet hregistry _
  · rw [h.globals]
    exact ⟨hglobals, hkept (hlive hglobals (hs.root _ .globals)) hglobal⟩

/-- **The library can be opened** in a state without libraries, if there is room for three values on the
stack. Its table is left there. -/
theorem opens_of_bare (hm : Prepared (r + 2) m) (hb : m.state.Bare) (htop : m.state.top + 3 ≤ stackLimit) :
    ∃ table n, Ends enter openLibrary m (.ok table) n ∧ n.state.top = m.state.top + 1 ∧
      n.state.frames = m.state.frames := by
  obtain ⟨q, n, hends⟩ := @settles_openLibrary σ enter m
  obtain ⟨k, encoder, e, c, houter, hrest⟩ := exists_outer hm (.inl (by omega)) hends
  have hstack := houter.top
  obtain ⟨k', decoder, inner, t, hinner, hleads, hdrop, -, hrest⟩ := exists_inner houter (.inl (by omega)) hrest
  obtain ⟨table, u, hpublish, hutop, hu⟩ := succeeds_publishing hinner.prepared.sound
    (bare_of_leads hm.sound hb (houter.leads.trans hleads)) (by omega) encoder decoder
  obtain ⟨rfl, rfl⟩ := ((performs_publish encoder decoder).ends hpublish).unique hrest
  refine ⟨table, _, hends, ?_, hu.trans (houter.leads.trans hleads).frames⟩
  rw [Machine.state_withState, hutop]
  omega

/-- On a new machine everything is prepared. -/
lemma prepared_new (host : σ) (hr : r + 3 ≤ Value.payloadLimit) : Prepared r (Machine.new host) := by
  have hstrings : (Machine.new host).state.heap.strings.items.size ≤ 1 :=
    State.seedHeap.size_strings_intern_le (Text.bytes State.loadedKey)
  have htables : (Machine.new host).state.heap.tables.items.size = 3 := by
    have htables := State.seedHeap.tables_intern (Text.bytes State.loadedKey)
    exact (Arena.size_modify ..).trans (congrArg (·.items.size) htables)
  have henvs : (Machine.new host).state.heap.envs = .empty :=
    State.seedHeap.envs_intern (Text.bytes State.loadedKey)
  have huserdata : (Machine.new host).state.heap.userdata = .empty :=
    State.seedHeap.userdata_intern (Text.bytes State.loadedKey)
  refine ⟨State.sound_new, le_rfl, Nat.zero_le _, rfl, by omega, by omega, ?_, ?_, ?_⟩
  · rw [henvs]
    exact (Nat.zero_add r).trans_le (by omega)
  · rw [huserdata]
    exact (Nat.zero_add r).trans_le (by omega)
  · exact (Nat.zero_add r).trans_le (by omega)

/-- **The library is opened on a new machine**, and there is room for calls then. -/
theorem exists_opened_new (host : σ) : ∃ table n, Ends enter openLibrary (Machine.new host) (.ok table) n ∧
    (∃ encoder decoder, Opened 4 table encoder decoder n) ∧ HasRoom 4 n := by
  obtain ⟨table, n, hopen, htop, hframes⟩ :=
    opens_of_bare (r := 12) (prepared_new host (by decide)) State.bare_new (show 0 + 3 ≤ stackLimit by decide)
  obtain ⟨encoder, decoder, ho⟩ := exists_opened (r := 4) (prepared_new host (by decide)) hopen
  have hbase : n.state.base = 0 := by
    rw [State.base, hframes]
    rfl
  refine ⟨table, n, hopen, ⟨encoder, decoder, ho⟩, ho.strings, by omega, ?_, ?_⟩
  · rw [htop]
    exact (show 0 + 1 + 4 ≤ stackLimit by decide)
  · rw [hframes]
    exact (show 1 < State.maxFrames by decide)

end Base64

end ScriptCore
