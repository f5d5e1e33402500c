import ScriptCore.Proofs.NameConflicts

set_option relaxedAutoImplicit false
set_option autoImplicit false

/-!
# Tables that stay recorded

A registration writes under a name only where there is no table yet: in the registry when the table of libraries is
missing, along the name of the library, and in the table of libraries. So whatever tables these are, and even if some of
them are the same, a table that is found under a name is found there behind every registration, and under other names
everything is as it was. Therefore a library that is recorded stays so.

## Main definitions

* `ScriptCore.State.KeepsEntries` — certain entries are there still.
* `ScriptCore.State.Admits` — a registration writes to no entry that is to be kept.
* `ScriptCore.State.Upholds` — what an action on the heap leaves as it was.
* `ScriptCore.State.Bears` — what an action leaves as it was that puts values on the stack.
* `ScriptCore.State.Provided` — what has been done when a library has been registered.

## Main results

* `ScriptCore.State.upholds_findTable`, `ScriptCore.State.upholds_loadedTable`,
  `ScriptCore.State.upholds_libraryTable` — the parts of a registration.
* `ScriptCore.State.provided_registerLibrary` — registrations, whether they succeed or fail.
-/

namespace ScriptCore.State

variable {s t u : State} {v w start value : Value} {name part : String} {i c : ℕ} {K : String → Value → Prop}

/-! ## What stays -/

/-- What a live value has under a name is there still, if this is to be kept. -/
def KeepsEntries (K : String → Value → Prop) (s u : State) : Prop :=
  ∀ v name, s.Live v → K name (s.lookup v name) → u.lookup v name = s.lookup v name

/-- **A registration is admitted** if only tables are to be kept under the names it writes to. -/
def Admits (K : String → Value → Prop) (name : String) : Prop :=
  ∀ part ∈ loadedKey :: name :: nameParts name, ∀ v, K part v → v.isTable = true

/-- **From one state to another only the heap has changed**, where objects have come to those there are, and entries
that are to be kept stay there. -/
structure Upholds (K : String → Value → Prop) (s u : State) : Prop where
  rest : u = { s with heap := u.heap }
  sound : u.Sound
  inUse : ∀ o, s.heap.InUse o → u.heap.InUse o
  strings : ∀ i content, s.heap.HoldsString i content → u.heap.HoldsString i content
  entries : KeepsEntries K s u

/-- **From one state to another** values have come to the stack and objects to the heap, and entries that are to be kept
stay there. -/
structure Bears (K : String → Value → Prop) (s u : State) : Prop where
  sound : u.Sound
  grows : s.Extends u
  globals : u.globals = s.globals
  registry : u.registry = s.registry
  frames : u.frames = s.frames
  top_le : s.top ≤ u.top
  slots : ∀ i < s.top, u.stack.get i = s.stack.get i
  entries : KeepsEntries K s u

lemma KeepsEntries.refl (s : State) : KeepsEntries K s s := fun _ _ _ _ => rfl

lemma KeepsEntries.trans (hst : KeepsEntries K s t) (hextends : s.Extends t) (htu : KeepsEntries K t u) :
    KeepsEntries K s u := by
  intro v name hv hkept
  have hfirst := hst v name hv hkept
  rw [htu v name (hv.mono hextends) (hfirst ▸ hkept), hfirst]

lemma Upholds.refl (hs : s.Sound) : s.Upholds K s := ⟨rfl, hs, fun _ h => h, fun _ _ h => h, .refl s⟩

lemma Upholds.extends (h : s.Upholds K u) : s.Extends u := by
  refine ⟨h.inUse, ?_⟩
  rw [h.rest]

lemma Upholds.trans (hst : s.Upholds K t) (htu : t.Upholds K u) : s.Upholds K u := by
  refine ⟨?_, htu.sound, fun o ho => htu.inUse o (hst.inUse o ho),
    fun i content hi => htu.strings i content (hst.strings i content hi), hst.entries.trans hst.extends htu.entries⟩
  rw [htu.rest, hst.rest]

lemma Upholds.mono {L : String → Value → Prop} (h : s.Upholds K u) (hkept : ∀ name v, L name v → K name v) :
    s.Upholds L u :=
  ⟨h.rest, h.sound, h.inUse, h.strings, fun v name hv hl => h.entries v name hv (hkept name _ hl)⟩

lemma Upholds.bears (h : s.Upholds K u) : s.Bears K u := by
  refine ⟨h.sound, h.extends, ?_, ?_, ?_, ?_, fun i _ => ?_, h.entries⟩ <;> rw [h.rest]

lemma Bears.refl (hs : s.Sound) : s.Bears K s := (Upholds.refl hs).bears

lemma Bears.trans (hst : s.Bears K t) (htu : t.Bears K u) : s.Bears K u :=
  ⟨htu.sound, hst.grows.trans htu.grows, htu.globals.trans hst.globals, htu.registry.trans hst.registry,
    htu.frames.trans hst.frames, hst.top_le.trans htu.top_le,
    fun i hi => (htu.slots i (hi.trans_le hst.top_le)).trans (hst.slots i hi),
    hst.entries.trans hst.grows htu.entries⟩

lemma Bears.mono {L : String → Value → Prop} (h : s.Bears K u) (hkept : ∀ name v, L name v → K name v) : s.Bears L u :=
  ⟨h.sound, h.grows, h.globals, h.registry, h.frames, h.top_le, h.slots,
    fun v name hv hl => h.entries v name hv (hkept name _ hl)⟩

/-- A value that has a table under a name is a table. -/
lemma isTable_of_lookup (hv : (s.lookup v name).isTable = true) : v.isTable = true := by
  cases hc : v.table? with
  | some c => exact isTable_of_table? hc
  | none =>
    rw [lookup_of_blank fun k => rawGet_of_no_table hc k] at hv
    cases hv

/-- **What is recorded stays recorded**, with the table of libraries. -/
lemma Bears.recorded (h : s.Bears K u) (hs : s.Sound) (hloaded : ∀ v, v.isTable = true → K loadedKey v)
    (hname : ∀ v, v.isTable = true → K name v) (htable : (s.lookup s.loaded name).isTable = true) :
    u.lookup u.loaded name = s.lookup s.loaded name := by
  have hregistry : u.loaded = s.loaded := by
    rw [loaded, h.registry]
    exact h.entries _ _ (hs.root _ .registry) (hloaded _ (isTable_of_lookup htable))
  rw [hregistry, h.entries _ _ hs.live_loaded (hname _ htable)]

/-! ## Changes of the heap -/

lemma MoreStrings.upholds (h : s.MoreStrings u) (hs : s.Sound) (hu : u.Sound) (hfits : u.heap.Fits) :
    s.Upholds K u :=
  ⟨h.rest, hu, fun _ ho => h.inUse ho, h.strings, fun _ name hv _ => h.lookup_eq hs hu hfits hv name⟩

/-- The tables there are have the same entries beside a new one. -/
lemma rawGet_newTable (hs : s.Sound) (size : ℕ) (hv : s.Live v) (key : Value) :
    (newTable size s).2.rawGet v key = s.rawGet v key := by
  cases hc : v.table? with
  | none => rw [rawGet_of_no_table hc, rawGet_of_no_table hc]
  | some c =>
    have hwf := hs.heap.orderly.wellFormed
    have hne : c ≠ (s.heap.newTable size).1 := fun heq =>
      (hwf.tables.alloc_index .empty).1 (heq ▸ hv.inUse_table hc)
    rw [rawGet_of_table? hc, rawGet_of_table? hc]
    exact (Heap.tableGet_newTable hwf size c key).trans (if_neg hne)

lemma upholds_newTable (hs : s.Sound) (size : ℕ) : s.Upholds K (newTable size s).2 := by
  have hsafe := safeAt_newTable hs size
  refine ⟨rfl, hsafe.sound, hsafe.grows.inUse, fun i content hi => ⟨hi.inUse, hi.content⟩, fun v name hv _ => ?_⟩
  have hfind : (newTable size s).2.heap.find? (Text.bytes name) = s.heap.find? (Text.bytes name) := rfl
  rw [lookup, lookup, hfind]
  split
  · exact rawGet_newTable hs size hv _
  · rfl

/-- What is under a name depends on the table. -/
lemma lookup_congr (h : v.table? = w.table?) (name : String) : s.lookup v name = s.lookup w name := by
  simp only [lookup, rawGet, h]

/-- **A value is written to an entry that is not to be kept.** -/
theorem Upholds.rawSet (h : s.Upholds K u) (hfits : u.heap.Fits) (hstart : u.Live start)
    (hi : u.heap.HoldsString i (Text.bytes part)) (hvalue : u.Live value) (hnot : ¬ K part (s.lookup start part)) :
    s.Upholds K (rawSet start (.string i) value u).2 := by
  have hsafe := safeAt_rawSet h.sound hstart (h.sound.live_string hi) hvalue
  rcases rawSet_cases start (.string i) value u with ⟨e, heq⟩ | ⟨c, hc, hlt, heq⟩ <;> rw [heq]
  · exact h
  have hsound := hsafe.sound
  have hgrows := hsafe.grows
  rw [heq] at hsound hgrows
  refine ⟨by rw [h.rest], hsound, fun o ho => hgrows.inUse o (h.inUse o ho), fun j content hj => ?_,
    fun v name hv hkept => ?_⟩
  · have hheld := h.strings j content hj
    exact ⟨hheld.inUse, hheld.content⟩
  rw [← h.entries v name hv hkept]
  refine lookup_write_of_ne h.sound.heap.orderly.interning hi hfits ?_
  rintro hv rfl
  rw [lookup_congr (hv.trans hc.symm)] at hkept
  exact hnot hkept

/-- **A table is made** under a name where nothing is to be kept. -/
lemma upholds_made {n size : ℕ} {m x : State} (hs : s.Sound) (hstart : s.Live start)
    (hi : s.heap.HoldsString i (Text.bytes part)) (hnot : ¬ K part (s.lookup start part))
    (hnew : newTable size s = (.ok (.table n), m)) (hset : State.rawSet start (.string i) (.table n) m = (.ok (), x))
    (hfits : x.heap.Fits) : s.Upholds K x := by
  have hsm := upholds_newTable (K := K) hs size
  have hlive := (safeAt_newTable hs size).result (.table n) (by rw [hnew])
  have hspans : Keeps Heap.Spans (State.rawSet start (.string i) (.table n)) := .rawSet _ _ _
  have hspansm := hspans m
  rw [hnew] at hsm hlive
  rw [hset] at hspansm
  have hsx := hsm.rawSet (hspansm.fits hfits) (hstart.mono hsm.extends) (hsm.strings i _ hi) hlive hnot
  rwa [hset] at hsx

/-! ## The search for a table -/

/-- **The search for a table** writes only where there is nothing, and comes to a table. -/
theorem upholds_findTable (library : String) (size : ℕ) (parts : List String) (hs : s.Sound) (hstart : s.Live start)
    (htable : start.isTable = true) (hparts : ∀ part ∈ parts, ∀ v, K part v → v.isTable = true)
    (hfits : (findTable library size parts start s).2.heap.Fits) :
    s.Upholds K (findTable library size parts start s).2 ∧
      ∀ v, (findTable library size parts start s).1 = .ok v → v.isTable = true := by
  induction parts generalizing s start with
  | nil =>
    refine ⟨.refl hs, fun v hv => ?_⟩
    cases hv
    exact htable
  | cons part rest ih =>
    obtain ⟨hpart, hrest⟩ := List.forall_mem_cons.1 hparts
    obtain ⟨i, hi, hfitsm, hrun⟩ := findTable_cons library size hs hstart hfits
    obtain ⟨hm, hsm⟩ := moreStrings_withStrings hs [part]
    have hbehind : s.Upholds K (s.withStrings [part]) := hsm.upholds hs hm hfitsm
    rw [hrun, proceed] at hfits ⊢
    split
    · next hnil =>
      rw [if_pos hnil] at hfits
      obtain ⟨c, hc⟩ := table?_of_isTable htable
      obtain ⟨n, m, x, hnew, hset, hx, hn, hntable, -, -, hmade⟩ :=
        exists_made hm (hsm.live hstart) hc hi (fun _ => .findTable _ _ _ _) hfits
      rw [hmade] at hfits ⊢
      have hspans : Keeps Heap.Spans (findTable library size rest (.table n)) := .findTable _ _ _ _
      have hnot : ¬ K part ((s.withStrings [part]).lookup start part) := fun hkept => by
        rw [hsm.lookup_eq hs hm hfitsm hstart] at hkept
        rw [isNil_of_isTable (hpart _ hkept)] at hnil
        cases hnil
      have hmx := upholds_made hm (hsm.live hstart) hi hnot hnew hset ((hspans x).fits hfits)
      obtain ⟨hfound, hresult⟩ := ih hx hn hntable hrest hfits
      exact ⟨(hbehind.trans hmx).trans hfound, hresult⟩
    next hnil =>
    rw [if_neg hnil] at hfits
    split
    · next hnext =>
      rw [if_pos hnext] at hfits
      obtain ⟨hfound, hresult⟩ := ih hm (hsm.live (hs.live_lookup hstart part)) hnext hrest hfits
      exact ⟨hbehind.trans hfound, hresult⟩
    · exact ⟨hbehind, fun v hv => by cases hv⟩

/-! ## Registrations -/

/-- A string that is in use is found, and nothing changes. -/
lemma intern_of_holdsString (hs : s.Sound) (hi : s.heap.HoldsString i (Text.bytes name)) :
    intern name s = (.ok (.string i), s) := by
  rw [intern, internBytes_eq, onHeap, hs.heap.orderly.interning.intern_of_holdsString hi]

/-- **The table of libraries** is found in the registry, or made if there is none. -/
theorem upholds_loadedTable (hs : s.Sound) (hkept : ∀ v, K loadedKey v → v.isTable = true)
    (hfits : (loadedTable s).2.heap.Fits) :
    ∃ t, loadedTable s = (.ok t.loaded, t) ∧ t.loaded.isTable = true ∧ s.Upholds K t := by
  obtain ⟨m, hm⟩ : ∃ m, s.withStrings [loadedKey] = m := ⟨_, rfl⟩
  obtain ⟨hsound, hmore⟩ := moreStrings_withStrings hs [loadedKey]
  obtain ⟨i, hi, hintern⟩ : ∃ i, m.heap.HoldsString i (Text.bytes loadedKey) ∧
      intern loadedKey s = (.ok (.string i), m) := by
    rw [← hm]
    exact ⟨_, hs.heap.orderly.interning.holdsString_index _, rfl⟩
  rw [hm] at hsound hmore
  have hregistry : registryGet loadedKey s = (.ok m.loaded, m) := by
    rw [registryGet, bind_apply, hintern, andThen_ok, bind_apply, get_apply, andThen_ok, pure_apply, loaded,
      lookup_of_holdsString hsound.heap.orderly.interning hi]
  by_cases htable : m.loaded.isTable = true
  · have hload : loadedTable s = (.ok m.loaded, m) := by
      rw [loadedTable, bind_apply, hregistry, andThen_ok, if_pos htable]
      rfl
    rw [hload] at hfits
    exact ⟨m, hload, htable, hmore.upholds hs hsound hfits⟩
  -- the key is there when the table has been made
  have hmake : loadedTable s = (newTable 16 >>= fun table =>
      rawSet (.table m.registry) (.string i) table >>= fun _ => pure table) m := by
    obtain ⟨p, hp⟩ : ∃ p, (newTable 16 m).2 = p := ⟨_, rfl⟩
    have hmp := upholds_newTable (K := K) hsound 16
    have hnew : newTable 16 m = (.ok (.table (m.heap.newTable 16).1), p) := hp ▸ rfl
    rw [hp] at hmp
    have hglobal : p.registry = m.registry := by rw [hmp.rest]
    rw [loadedTable, bind_apply, hregistry, andThen_ok, if_neg htable, bind_apply, bind_apply, hnew, andThen_ok,
      andThen_ok, bind_apply, intern_of_holdsString hmp.sound (hmp.strings i _ hi), andThen_ok, bind_apply, get_apply,
      andThen_ok, hglobal]
  rw [hmake] at hfits ⊢
  have hlive := hsound.root _ .registry
  have hspans : Keeps Heap.Spans (newTable 16 >>= fun table =>
      rawSet (.table m.registry) (.string i) table >>= fun _ => pure table) :=
    (Keeps.newTable _).bind fun _ => (Keeps.rawSet _ _ _).bind fun _ => .pure _
  obtain ⟨n, p, x, hnew, hset, hx, hn, hntable, -, hentry, hmade⟩ :=
    exists_made hsound hlive (Value.table?_table _) hi (fun table => .pure table) hfits
  have hsm : s.Upholds K m := hmore.upholds hs hsound ((hspans m).fits hfits)
  rw [hmade] at hfits ⊢
  have hmx := upholds_made hsound hlive hi (fun h => htable (hkept _ h)) hnew hset hfits
  have hx' : x.loaded = .table n := by
    have hglobal : x.registry = m.registry := by rw [hmx.rest]
    rw [loaded, hglobal, lookup_of_holdsString hx.heap.orderly.interning (hmx.strings i _ hi), hentry]
  exact ⟨x, by rw [hx']; rfl, hx' ▸ hntable, hsm.trans hmx⟩

/-- Where there is a table of libraries, the table of a library is found or made, and recorded. -/
lemma upholds_libraryTable_of_loaded (size : ℕ) (hs : s.Sound) (hloaded : s.loaded.isTable = true)
    (hkept : Admits K name) (hfits : (libraryTable name size s).2.heap.Fits) :
    s.Upholds K (libraryTable name size s).2 ∧ ∀ v, (libraryTable name size s).1 = .ok v →
      v.isTable = true ∧ (libraryTable name size s).2.Live v ∧
      (libraryTable name size s).2.lookup s.loaded name = v := by
  obtain ⟨-, hname, hparts⟩ := List.forall_mem_cons.1 hkept |>.imp_right List.forall_mem_cons.1
  obtain ⟨i, hi, hfitsm, hrun⟩ := libraryTable_eq hs hloaded name size hfits
  obtain ⟨hm, hsm⟩ := moreStrings_withStrings hs [name]
  have hbehind : s.Upholds K (s.withStrings [name]) := hsm.upholds hs hm hfitsm
  rw [hrun] at hfits ⊢
  split
  · next htable =>
    refine ⟨hbehind, fun v hv => ?_⟩
    cases hv
    exact ⟨htable, hsm.live (hs.live_lookup hs.live_loaded name), hsm.lookup_eq hs hm hfitsm hs.live_loaded name⟩
  next hnot =>
  rw [if_neg hnot] at hfits
  obtain ⟨l, hl⟩ := table?_of_isTable hloaded
  obtain ⟨r, u, hfind, hfitsu, hcases⟩ := recordTable_cases hm (hsm.live hs.live_loaded) hl hfits
  have hglobals := hm.root _ .globals
  obtain ⟨hfound, hresult⟩ := upholds_findTable (K := K) name size (nameParts name) hm hglobals
    (isTable_of_table? (Value.table?_table _)) hparts (by rwa [hfind])
  have hlive := (safeAt_findTable hm name size (nameParts name) hglobals).result
  rw [hfind] at hfound hresult hlive
  obtain ⟨e, rfl, hrecord⟩ | ⟨v, w, rfl, hw, hset, hrecord⟩ := hcases
  · rw [hrecord]
    exact ⟨hbehind.trans hfound, nofun⟩
  rw [hrecord]
  have hsu := hbehind.trans hfound
  have hsw := hsu.rawSet hfitsu (hs.live_loaded.mono hsu.extends) (hfound.strings i _ hi) (hlive v rfl)
    fun h => hnot (hname _ h)
  rw [hset] at hsw
  have hvalue := hresult v rfl
  refine ⟨hsw, fun v' hv' => ?_⟩
  cases hv'
  have hgrows := (safeAt_rawSet hsu.sound (hs.live_loaded.mono hsu.extends)
    (hsu.sound.live_string (hfound.strings i _ hi)) (hlive v rfl)).grows
  rw [hset] at hgrows
  refine ⟨hvalue, (hlive v rfl).mono hgrows, ?_⟩
  rw [hw]
  exact lookup_write_self hsu.sound.heap.orderly.interning (hfound.strings i _ hi) hl
    ((hs.live_loaded.mono hsu.extends).inUse_table hl).lt_size (isNil_of_isTable hvalue)

/-- The table of libraries comes first, wherever it comes from. -/
lemma exists_loaded (name : String) (size : ℕ) (hs : s.Sound) (hkept : ∀ v, K loadedKey v → v.isTable = true)
    (hfits : (libraryTable name size s).2.heap.Fits) :
    ∃ t, t.loaded.isTable = true ∧ s.Upholds K t ∧ libraryTable name size s = libraryTable name size t := by
  have hspans : ∀ loaded, Keeps Heap.Spans (do
      let key ← intern name
      let existing := (← get).rawGet loaded key
      if existing.isTable then return existing
      recordTable loaded key name size) := fun loaded =>
    (Keeps.intern _).bind fun _ => .get_bind fun _ => .ite (.pure _) (keeps_spans_recordTable _ _ _ _)
  have hfitst : (loadedTable s).2.heap.Fits := by
    rw [libraryTable, bind_apply] at hfits
    rcases hload : loadedTable s with ⟨e | loaded, t⟩ <;> rw [hload] at hfits
    · exact hfits
    · exact (hspans loaded t).fits hfits
  obtain ⟨t, hload, htable, hst⟩ := upholds_loadedTable hs hkept hfitst
  refine ⟨t, htable, hst, ?_⟩
  rw [libraryTable, bind_apply, hload, bind_apply, loadedTable_eq hst.sound htable]

/-- **The table of a library** is found or made, and recorded, wherever the table of libraries comes from. There is no
other error than a conflict. -/
theorem upholds_libraryTable (size : ℕ) (hs : s.Sound) (hkept : Admits K name)
    (hfits : (libraryTable name size s).2.heap.Fits) :
    s.Upholds K (libraryTable name size s).2 ∧
      (∀ e, (libraryTable name size s).1 = .error e → e = .nameConflict name) ∧
      ∀ v, (libraryTable name size s).1 = .ok v → v.isTable = true ∧ (libraryTable name size s).2.Live v ∧
        (libraryTable name size s).2.lookup (libraryTable name size s).2.loaded name = v := by
  -- the table of libraries is kept anyway
  obtain ⟨L, hL⟩ : ∃ L : String → Value → Prop, L = fun name v => K name v ∨ (name = loadedKey ∧ v.isTable = true) :=
    ⟨_, rfl⟩
  have hadmits : Admits L name := by
    rw [hL]
    rintro part hpart v (hv | ⟨-, hv⟩)
    · exact hkept part hpart v hv
    · exact hv
  have hKL : ∀ name v, K name v → L name v := fun name v hv => by
    rw [hL]
    exact .inl hv
  obtain ⟨t, htable, hst, hsame⟩ := exists_loaded name size hs (hadmits _ List.mem_cons_self) hfits
  rw [hsame] at hfits ⊢
  obtain ⟨htu, hpost⟩ := upholds_libraryTable_of_loaded size hst.sound htable hadmits hfits
  refine ⟨(hst.trans htu).mono hKL, fun e he => ?_, fun v hv => ?_⟩
  · rcases libraryTable_cases hst.sound htable name size hfits with
      ⟨-, hfound⟩ | ⟨-, -, texts, -, hfailed⟩ | ⟨-, -, v, u, hfound⟩
    · rw [hfound] at he
      cases he
    · rw [hfailed] at he
      exact (Except.error.inj he).symm
    · rw [hfound] at he
      cases he
  · obtain ⟨hvalue, hlive, hlookup⟩ := hpost v hv
    have hloaded : (libraryTable name size t).2.loaded = t.loaded := by
      have hregistry : (libraryTable name size t).2.registry = t.registry := by rw [htu.rest]
      rw [loaded, hregistry]
      refine htu.entries _ _ (hst.sound.root _ .registry) ?_
      rw [hL]
      exact .inr ⟨rfl, htable⟩
    exact ⟨hvalue, hlive, by rw [hloaded, hlookup]⟩

/-- A value is pushed. -/
lemma Upholds.bears_push (h : s.Upholds K u) (hv : u.Live v) (hroom : u.top < stackLimit) :
    s.Bears K ((u.withStack (u.stack.set u.top v)).withTop (u.top + 1)) := by
  have hsafe := safeAt_push h.sound hv
  have hsound := hsafe.sound
  have hgrows := hsafe.grows
  rw [push_apply, if_neg (by omega)] at hsound hgrows
  have hbears := h.bears
  have htop : u.top = s.top := by rw [h.rest]
  refine ⟨hsound, h.extends.trans hgrows, hbears.globals, hbears.registry, hbears.frames, ?_, fun i hi => ?_,
    hbears.entries⟩
  · change s.top ≤ u.top + 1
    omega
  · change (u.stack.set u.top v).get i = s.stack.get i
    rw [Slots.get_set, if_neg (by omega)]
    exact hbears.slots i hi

/-- **What has been done when a library has been registered**, with a table or an error as the result: there is one more
value on the stack, the table that is recorded then, or none. Entries that are to be kept are there still. -/
structure Provided (K : String → Value → Prop) (name : String) (s : State) (q : Except RuntimeError Value)
    (u : State) : Prop where
  bears : s.Bears K u
  failed : ∀ e, q = .error e → u.top = s.top ∧
    (e = .nameConflict name ∨ (e = .stackOverflow ∧ stackLimit ≤ s.top))
  succeeded : ∀ v, q = .ok v → v.isTable = true ∧ u.top = s.top + 1 ∧ u.stack.get s.top = v ∧
    u.lookup u.loaded name = v

/-- **A registration** leaves the stack as it was if it fails, and puts the table that is recorded then on top of it if
it succeeds. -/
theorem provided_registerLibrary (size : ℕ) (hs : s.Sound) (hkept : Admits K name)
    (hfits : (registerLibrary name size s).2.heap.Fits) :
    s.Provided K name (registerLibrary name size s).1 (registerLibrary name size s).2 ∧
      (registerLibrary name size s).2.natives = s.natives ∧
      (registerLibrary name size s).2.top ≤ max s.top stackLimit := by
  obtain ⟨r, u, hlib, hfitsu, hrun⟩ := exists_libraryTable size hfits
  rw [hrun]
  obtain ⟨hsu, herror, hpost⟩ := upholds_libraryTable size hs hkept (by rwa [hlib])
  rw [hlib] at hsu herror hpost
  dsimp only at hsu herror hpost
  have htop : u.top = s.top := by rw [hsu.rest]
  have hnatives : u.natives = s.natives := by rw [hsu.rest]
  rcases r with e | v
  · refine ⟨⟨hsu.bears, fun e' he => ⟨htop, .inl ?_⟩, fun v hv => by cases hv⟩, hnatives, htop ▸ le_max_left _ _⟩
    cases he
    exact herror e rfl
  obtain ⟨hv, hlive, hlookup⟩ := hpost v rfl
  rw [andThen_ok, bind_apply, push_apply]
  split
  · next hfull =>
    refine ⟨⟨hsu.bears, fun e he => ?_, fun v hv => by cases hv⟩, hnatives, htop ▸ le_max_left _ _⟩
    cases he
    exact ⟨htop, .inr ⟨rfl, htop ▸ hfull⟩⟩
  next hroom =>
  have hbears := hsu.bears_push hlive (Nat.lt_of_not_le hroom)
  refine ⟨⟨hbears, fun e he => ?_, fun w hw => ?_⟩, hnatives, (Nat.lt_of_not_le hroom).trans_le (le_max_right _ _)⟩
  · cases he
  cases hw
  refine ⟨hv, congrArg (· + 1) htop, ?_, hlookup⟩
  change (u.stack.set u.top v).get s.top = v
  rw [Slots.get_set, if_pos ⟨htop, by omega⟩]

/-! ## A machine with one global -/

/-- Under other names, a machine with one global is as a new one. -/
lemma upholds_withGlobal (name : String) (b : Bool) :
    State.new.Upholds (fun other _ => other ≠ name) (withGlobal name b) := by
  obtain ⟨hsound, hmore⟩ := moreStrings_withStrings sound_new [name]
  obtain ⟨j, hj, hrun⟩ := withGlobal_eq name b
  have hatmost : (State.new.withStrings [name]).heap.HasAtMost 5 := hasAtMost_new.intern _
  have hfits := hatmost.fits (by decide)
  rw [hrun]
  exact (hmore.upholds sound_new hsound hfits).rawSet hfits (hmore.live (sound_new.root _ .globals)) hj
    (live_of_isPlain (Value.isPlain_bool b)) fun hkept => hkept rfl

lemma lookup_withGlobal_of_ne {other : String} (b : Bool) (hne : other ≠ name) :
    (withGlobal name b).lookup (.table (withGlobal name b).globals) other = .nil := by
  obtain ⟨-, hglobals, hblank⟩ := bare_new
  have hupholds := upholds_withGlobal name b
  have hnew : State.new.lookup (.table State.new.globals) other = .nil :=
    lookup_of_blank (rawGet_of_isBlank hblank hglobals) other
  have hroot : (withGlobal name b).globals = State.new.globals := by rw [hupholds.rest]
  rw [hroot, hupholds.entries _ _ (sound_new.root _ .globals) hne, hnew]

end ScriptCore.State
