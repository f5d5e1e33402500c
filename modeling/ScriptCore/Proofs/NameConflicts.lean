import ScriptCore.Proofs.LibraryRuns
import ScriptCore.Proofs.LossyDecoding

set_option relaxedAutoImplicit false
set_option autoImplicit false

/-!
# Name conflicts

The search for the table of a library makes the tables that are missing along the name, and fails at a value that is
no table. A new table has no entry, so behind it there is nothing the search could fail at. Therefore a search that
fails has not made any table: it has made strings for the parts it came through, and everything else is as before.

## Main definitions

* `ScriptCore.State.lookup` — what a value has under a name.
* `ScriptCore.State.loaded` — the table of libraries.
* `ScriptCore.State.tableAt?` — the table the parts of a name lead to.
* `ScriptCore.State.Obstructed` — there is a value in the way of a name that is no table.
* `ScriptCore.State.Undisturbed` — what a conflict leaves as it was.

## Main results

* `ScriptCore.State.findTable_cases` — a search fails exactly if the name is obstructed.
* `ScriptCore.State.nameConflict_iff` — when a registration fails with a conflict, and what it has done then.
-/

namespace ScriptCore.State

variable {s t u : State} {v w start : Value} {name part : String} {parts rest texts : List String} {i c : ℕ}

/-! ## Names and what they lead to -/

/-- What a value has under a name. There is nothing if no string has this text, as strings in use are the keys of
tables. -/
def lookup (s : State) (v : Value) (name : String) : Value :=
  match s.heap.find? (Text.bytes name) with
  | some i => s.rawGet v (.string i)
  | none => .nil

/-- The table of libraries, which the registry has under its name. -/
def loaded (s : State) : Value := s.lookup (.table s.registry) loadedKey

/-- The table that some parts of a name lead to, through tables only. -/
def tableAt? (s : State) (v : Value) (parts : List String) : Option Value :=
  parts.foldlM (fun v part => if (s.lookup v part).isTable then some (s.lookup v part) else none) v

/-- **A name is obstructed** from a table on: existing tables lead to a part of it that has a value, but no table. -/
def Obstructed (s : State) (parts : List String) (v : Value) : Prop :=
  ∃ before part after w, parts = before ++ part :: after ∧ s.tableAt? v before = some w ∧
    (s.lookup w part).isNil = false ∧ (s.lookup w part).isTable = false

lemma lookup_of_find? (hi : s.heap.find? (Text.bytes name) = some i) (v : Value) :
    s.lookup v name = s.rawGet v (.string i) := by
  rw [lookup, hi]

lemma lookup_of_none (hname : s.heap.find? (Text.bytes name) = none) (v : Value) : s.lookup v name = .nil := by
  rw [lookup, hname]

lemma lookup_of_holdsString (hs : s.heap.Interning) (hi : s.heap.HoldsString i (Text.bytes name)) (v : Value) :
    s.lookup v name = s.rawGet v (.string i) :=
  lookup_of_find? ((hs.interned_iff _ i).2 hi) v

/-- There is a string for a name under which there is a value. -/
lemma exists_string_of_lookup (hs : s.heap.Interning) (hv : (s.lookup v name).isNil = false) :
    ∃ i, s.heap.HoldsString i (Text.bytes name) ∧ s.lookup v name = s.rawGet v (.string i) := by
  cases hname : s.heap.find? (Text.bytes name) with
  | some i => exact ⟨i, (hs.interned_iff _ i).1 hname, lookup_of_find? hname v⟩
  | none =>
    rw [lookup_of_none hname] at hv
    cases hv

lemma lookup_of_blank (hblank : ∀ k, s.rawGet v k = .nil) (name : String) : s.lookup v name = .nil := by
  unfold lookup
  split
  · exact hblank _
  · rfl

lemma Sound.live_lookup (hs : s.Sound) (hv : s.Live v) (name : String) : s.Live (s.lookup v name) := by
  unfold lookup
  split
  · exact hs.live_rawGet hv _
  · exact live_nil

lemma Sound.live_loaded (hs : s.Sound) : s.Live s.loaded := hs.live_lookup (hs.root _ .registry) loadedKey

lemma isNil_of_isTable (hv : v.isTable = true) : v.isNil = false := by
  obtain ⟨i, hi⟩ := table?_of_isTable hv
  exact Value.isNil_of_object? (Value.object?_of_table? hi)

/-- A live table is in use. -/
lemma Live.inUse_table (hv : s.Live v) (hi : v.table? = some i) : s.heap.InUse (.table i) :=
  hv.object _ (Value.object?_of_table? hi)

lemma not_obstructed_nil (s : State) (v : Value) : ¬ s.Obstructed [] v := by
  rintro ⟨before, part, after, w, hparts, -⟩
  cases before <;> cases hparts

/-- **Whether a name is obstructed** shows at its first part, or from the table there on. -/
lemma obstructed_cons : s.Obstructed (part :: rest) v ↔
    ((s.lookup v part).isNil = false ∧ (s.lookup v part).isTable = false) ∨
      ((s.lookup v part).isTable = true ∧ s.Obstructed rest (s.lookup v part)) := by
  constructor
  · rintro ⟨before, part', after, w, hparts, hat, hvalue⟩
    cases before with
    | nil =>
      cases hparts
      cases hat
      exact .inl hvalue
    | cons first before =>
      obtain ⟨rfl, rfl⟩ := List.cons.inj hparts
      rw [tableAt?, List.foldlM_cons] at hat
      split at hat
      · next htable => exact .inr ⟨htable, before, part', after, w, rfl, hat, hvalue⟩
      · cases hat
  · rintro (hvalue | ⟨htable, before, part', after, w, rfl, hat, hvalue⟩)
    · exact ⟨[], part, rest, v, rfl, rfl, hvalue⟩
    · refine ⟨part :: before, part', after, w, rfl, ?_, hvalue⟩
      rw [tableAt?, List.foldlM_cons, if_pos htable]
      exact hat

/-- From a table without entries on, nothing is in the way. -/
lemma not_obstructed_of_blank (hblank : ∀ k, s.rawGet v k = .nil) (parts : List String) : ¬ s.Obstructed parts v := by
  cases parts with
  | nil => exact not_obstructed_nil s v
  | cons part rest =>
    rw [obstructed_cons, lookup_of_blank hblank]
    rintro (⟨hnil, -⟩ | ⟨htable, -⟩)
    · cases hnil
    · cases htable

/-- **More strings do not change what there is under a name**, as long as the entries of tables are the same, since the
keys of the tables in use are strings there have been. -/
theorem lookup_eq_of_rawGet_eq (hs : s.Sound) (hu : u.Sound) (hfits : u.heap.Fits)
    (hstrings : ∀ i content, s.heap.HoldsString i content → u.heap.HoldsString i content) (hv : s.Live v)
    (hget : ∀ k, u.rawGet v k = s.rawGet v k) (name : String) : u.lookup v name = s.lookup v name := by
  have hi := hu.heap.orderly.interning
  cases hname : u.heap.find? (Text.bytes name) with
  | none =>
    have hnone : s.heap.find? (Text.bytes name) = none := by
      by_contra hsome
      obtain ⟨i, hi'⟩ := Option.ne_none_iff_exists'.1 hsome
      have hheld := hstrings i _ ((hs.heap.orderly.interning.interned_iff _ i).1 hi')
      have hfound : u.heap.find? (Text.bytes name) = some i := (hi.interned_iff _ i).2 hheld
      rw [hname] at hfound
      cases hfound
    rw [lookup_of_none hname, lookup_of_none hnone]
  | some i =>
    have hheld := (hi.interned_iff _ i).1 hname
    rw [lookup_of_find? hname, hget]
    by_cases hnil : s.rawGet v (.string i) = .nil
    · -- a string that is new is no key, and one that is not has the same handle
      cases hold : s.heap.find? (Text.bytes name) with
      | none => rw [lookup_of_none hold, hnil]
      | some j =>
        have hheld' := hstrings j _ ((hs.heap.orderly.interning.interned_iff _ j).1 hold)
        rw [lookup_of_find? hold, hi.handle_unique hheld' hheld]
    obtain ⟨c, hc⟩ : ∃ c, v.table? = some c := by
      cases hc : v.table? with
      | some c => exact ⟨c, rfl⟩
      | none => exact absurd (rawGet_of_no_table hc _) hnil
    rw [rawGet_of_table? hc] at hnil
    have hkey := (Heap.refers_of_tableGet_ne hnil).1
    rw [Value.normalizeKey_string] at hkey
    have hlt : i < Value.payloadLimit := hfits (.string i) hheld.inUse.lt_size
    have hin := (hs.heap.reference _ _ (hv.inUse_table hc) hkey).object _ (Value.object?_string hlt)
    obtain ⟨content, hcontent⟩ := Arena.InUse.exists_get? hin
    obtain rfl := (hstrings i content ⟨hin, hcontent⟩).content_unique hheld
    rw [lookup_of_holdsString hs.heap.orderly.interning ⟨hin, hcontent⟩]

/-- A value is written under a string. -/
lemma rawSet_string (i : ℕ) (value : Value) (hc : v.table? = some c) (hlt : c < s.heap.tables.items.size) :
    rawSet v (.string i) value s = (.ok (), { s with heap := s.heap.write c (.string i) value }) :=
  rawSet_of_lt (isKey_string i) hc hlt

section Write

variable {value : Value} (hs : s.heap.Interning) (hi : s.heap.HoldsString i (Text.bytes part))

include hs hi

/-- What is written under a name is found there. -/
lemma lookup_write_self (hc : v.table? = some c) (hlt : c < s.heap.tables.items.size) (hvalue : value.isNil = false) :
    State.lookup { s with heap := s.heap.write c (.string i) value } v part = value := by
  have hfind : (s.heap.write c (.string i) value).find? (Text.bytes part) = some i := (hs.interned_iff _ i).2 hi
  rw [lookup, hfind]
  dsimp only
  rw [rawGet_of_table? hc, Heap.tableGet_write, if_pos ⟨rfl, hlt, rfl⟩, hvalue]
  rfl

/-- What is under other names, or in other tables, is as before. -/
lemma lookup_write_of_ne (hfits : s.heap.Fits) (hne : v.table? = some c → name ≠ part) :
    State.lookup { s with heap := s.heap.write c (.string i) value } v name = s.lookup v name := by
  have hfind : (s.heap.write c (.string i) value).find? (Text.bytes name) = s.heap.find? (Text.bytes name) := rfl
  rw [lookup, lookup, hfind]
  cases hname : s.heap.find? (Text.bytes name) with
  | none => rfl
  | some j =>
    dsimp only
    cases hd : v.table? with
    | none => rw [rawGet_of_no_table hd, rawGet_of_no_table hd]
    | some d =>
      rw [rawGet_of_table? hd, rawGet_of_table? hd]
      rcases Heap.tableGet_write_cases s.heap c d (.string i) value (.string j) with hsame | ⟨rfl, hkey, -⟩
      · exact hsame
      -- a key that is the same is the same text
      have hj := (hs.interned_iff _ j).1 hname
      have hlt {i : ℕ} {content : List UInt8} (hi : s.heap.HoldsString i content) : i < Value.payloadLimit :=
        hfits (.string i) hi.inUse.lt_size
      have hij : i = j := by
        rw [Value.normalizeKey_string, Value.normalizeKey_string] at hkey
        exact Object.string.inj ((@Object.value_inj (.string i) (.string j) (hlt hi) (hlt hj)).1 hkey)
      subst hij
      exact absurd (Function.LeftInverse.injective Text.showBytes_bytes (hj.content_unique hi)) (hne hd)

end Write

/-- What is in the way of a name depends on what live values have under names. -/
lemma obstructed_congr (hs : s.Sound) (hlookup : ∀ v, s.Live v → ∀ name, u.lookup v name = s.lookup v name)
    (hv : s.Live v) (parts : List String) : u.Obstructed parts v ↔ s.Obstructed parts v := by
  induction parts generalizing v with
  | nil => exact iff_of_false (not_obstructed_nil u v) (not_obstructed_nil s v)
  | cons part rest ih =>
    rw [obstructed_cons, obstructed_cons, hlookup v hv, ih (hs.live_lookup hv part)]

/-! ## States with more strings -/

/-- The state with strings for some texts, which are made one after another. -/
def withStrings (s : State) (texts : List String) : State := texts.foldl (fun s text => (intern text s).2) s

/-- **Between two states there are more strings**, and the rest is the same. -/
structure MoreStrings (s u : State) : Prop where
  rest : u = { s with heap := u.heap }
  tables : u.heap.tables = s.heap.tables
  envs : u.heap.envs = s.heap.envs
  userdata : u.heap.userdata = s.heap.userdata
  strings : ∀ i content, s.heap.HoldsString i content → u.heap.HoldsString i content

lemma MoreStrings.refl (s : State) : s.MoreStrings s := ⟨rfl, rfl, rfl, rfl, fun _ _ h => h⟩

lemma MoreStrings.trans (hst : s.MoreStrings t) (htu : t.MoreStrings u) : s.MoreStrings u := by
  refine ⟨?_, htu.tables.trans hst.tables, htu.envs.trans hst.envs, htu.userdata.trans hst.userdata,
    fun i c hi => htu.strings i c (hst.strings i c hi)⟩
  rw [htu.rest, hst.rest]

lemma moreStrings_intern (hs : s.Sound) (text : String) : s.MoreStrings (intern text s).2 :=
  ⟨rfl, s.heap.tables_intern _, s.heap.envs_intern _, s.heap.userdata_intern _,
    fun _ _ hi => (Heap.adds_intern hs.heap.orderly.wellFormed hs.heap.orderly.interning _).strings _ _ hi⟩

lemma moreStrings_withStrings (hs : s.Sound) (texts : List String) :
    (s.withStrings texts).Sound ∧ s.MoreStrings (s.withStrings texts) := by
  induction texts generalizing s with
  | nil => exact ⟨hs, .refl s⟩
  | cons text texts ih =>
    obtain ⟨hsound, hmore⟩ := ih (safeAt_intern hs text).sound
    exact ⟨hsound, (moreStrings_intern hs text).trans hmore⟩

section More

variable (hs : s.Sound) (hu : u.Sound) (hfits : u.heap.Fits) (hsu : s.MoreStrings u)

include hsu

lemma MoreStrings.rawGet_eq (v k : Value) : u.rawGet v k = s.rawGet v k := by
  simp only [rawGet, Heap.tableGet, hsu.tables]

lemma MoreStrings.inUse {o : Object} (ho : s.heap.InUse o) : u.heap.InUse o := by
  cases o with
  | string i =>
    obtain ⟨content, hcontent⟩ := Arena.InUse.exists_get? ho
    exact (hsu.strings i content ⟨ho, hcontent⟩).inUse
  | table i => rwa [Heap.InUse, hsu.tables]
  | userdata i => rwa [Heap.InUse, hsu.userdata]
  | env i => rwa [Heap.InUse, hsu.envs]

lemma MoreStrings.live (hv : s.Live v) : u.Live v := by
  refine Heap.Live.mono hv (fun _ ho => hsu.inUse ho) ?_
  rw [hsu.rest]

include hs hu hfits

lemma MoreStrings.lookup_eq (hv : s.Live v) (name : String) : u.lookup v name = s.lookup v name :=
  lookup_eq_of_rawGet_eq hs hu hfits hsu.strings hv (hsu.rawGet_eq v) name

lemma MoreStrings.obstructed_iff (hv : s.Live v) (parts : List String) : u.Obstructed parts v ↔ s.Obstructed parts v :=
  obstructed_congr hs (fun _ hv => hsu.lookup_eq hs hu hfits hv) hv parts

end More

/-! ## The search for a table -/

/-- What the search does at a part with a key, where there is a value. -/
def proceed (library : String) (size : ℕ) (rest : List String) (current key existing : Value) : Action Value :=
  if existing.isNil then do
    let table ← newTable (if rest.isEmpty then size else 1)
    rawSet current key table
    findTable library size rest table
  else if existing.isTable then findTable library size rest existing
  else throw (.nameConflict library)

lemma keeps_spans_proceed (library : String) (size : ℕ) (rest : List String) (current key existing : Value) :
    Keeps Heap.Spans (proceed library size rest current key existing) :=
  .ite ((Keeps.newTable _).bind fun _ => (Keeps.rawSet _ _ _).bind fun _ => .findTable _ _ _ _)
    (.ite (.findTable _ _ _ _) (.throw _))

/-- A part of a name gets a string, and the search goes on with what there is under it. -/
lemma findTable_cons (library : String) (size : ℕ) (hs : s.Sound) (hstart : s.Live start)
    (hfits : (findTable library size (part :: rest) start s).2.heap.Fits) :
    ∃ i, (s.withStrings [part]).heap.HoldsString i (Text.bytes part) ∧ (s.withStrings [part]).heap.Fits ∧
      findTable library size (part :: rest) start s =
        proceed library size rest start (.string i) (s.lookup start part) (s.withStrings [part]) := by
  have hrun : findTable library size (part :: rest) start s =
      proceed library size rest start (.string (s.heap.intern (Text.bytes part)).1)
        ((s.withStrings [part]).rawGet start (.string (s.heap.intern (Text.bytes part)).1)) (s.withStrings [part]) :=
    rfl
  rw [hrun] at hfits
  have hfits := (keeps_spans_proceed _ _ _ _ _ _ _).fits hfits
  obtain ⟨hsound, hmore⟩ := moreStrings_withStrings hs [part]
  have hi : (s.withStrings [part]).heap.HoldsString (s.heap.intern (Text.bytes part)).1 (Text.bytes part) :=
    hs.heap.orderly.interning.holdsString_index _
  refine ⟨_, hi, hfits, ?_⟩
  rw [hrun, ← lookup_of_holdsString hsound.heap.orderly.interning hi, hmore.lookup_eq hs hsound hfits hstart]

/-- **A missing table is made**, and there is nothing in it. -/
lemma exists_made {content : List UInt8} {size : ℕ} {f : Value → Action Value} (hs : s.Sound) (hstart : s.Live start)
    (hc : start.table? = some c) (hi : s.heap.HoldsString i content) (hspans : ∀ table, Keeps Heap.Spans (f table))
    (hfits : ((newTable size >>= fun table => rawSet start (.string i) table >>= fun _ => f table) s).2.heap.Fits) :
    ∃ n m x, newTable size s = (.ok (.table n), m) ∧ rawSet start (.string i) (.table n) m = (.ok (), x) ∧ x.Sound ∧
      x.Live (.table n) ∧ (Value.table n).isTable = true ∧ (∀ k, x.rawGet (.table n) k = .nil) ∧
      x.rawGet start (.string i) = .table n ∧
      (newTable size >>= fun table => rawSet start (.string i) table >>= fun _ => f table) s = f (.table n) x := by
  have hspans' :
      Keeps Heap.Spans (newTable size >>= fun table => rawSet start (.string i) table >>= fun _ => f table) :=
    (Keeps.newTable _).bind fun table => (Keeps.rawSet _ _ _).bind fun _ => hspans table
  obtain ⟨n, m, hn, hnew, hm⟩ : ∃ n m, (s.heap.newTable size).1 = n ∧ newTable size s = (.ok (.table n), m) ∧
      m = { s with heap := (s.heap.newTable size).2 } := ⟨_, _, rfl, rfl, rfl⟩
  have hsafe := safeAt_newTable hs size
  have hsound := hsafe.sound
  have hgrows := hsafe.grows
  have hlive := hsafe.result (.table n) (by rw [hnew])
  rw [hnew] at hsound hgrows hlive
  dsimp only at hsound hgrows hlive
  -- the new table comes into the one in use
  have hin := hstart.inUse_table hc
  have hlt : c < m.heap.tables.items.size := (hgrows.inUse _ hin).lt_size
  obtain ⟨x, hx, hset⟩ : ∃ x, x = { m with heap := m.heap.write c (.string i) (.table n) } ∧
      rawSet start (.string i) (.table n) m = (.ok (), x) := ⟨_, rfl, rawSet_string i (.table n) hc hlt⟩
  have hsafe' := safeAt_rawSet hsound (hstart.mono hgrows) ((hs.live_string hi).mono hgrows) hlive
  have hsoundx := hsafe'.sound
  have hgrowsx := hsafe'.grows
  rw [hset] at hsoundx hgrowsx
  have hrun : (newTable size >>= fun table => rawSet start (.string i) table >>= fun _ => f table) s =
      f (.table n) x := by
    rw [bind_apply, hnew, andThen_ok, bind_apply, hset]
    rfl
  have horderly := hs.heap.orderly
  have hfitss := (hspans' s).fits hfits
  rw [hrun] at hfits
  have hn' : n < Value.payloadLimit := by
    have hinm : m.heap.InUse (.table n) := by
      rw [hm, ← hn]
      exact Heap.inUse_newTable horderly.wellFormed size
    exact (hspans _ x).fits hfits (.table n) (hgrowsx.inUse _ hinm).lt_size
  have htable : (Value.table n).table? = some n := by rw [Value.table?_table, Nat.mod_eq_of_lt hn']
  have hmakes := makes_newTable (u := x)
    ⟨horderly.wellFormed, horderly.interning, horderly.unmarked, hfitss⟩ rfl hin hn hn' (by rw [hx, hm])
  refine ⟨n, m, x, hnew, hset, hsoundx, hlive.mono hgrowsx, isTable_of_table? htable, fun k => ?_, ?_, hrun⟩
  · rw [rawGet_of_table? htable, hmakes.blank]
  · rw [rawGet_of_table? hc, hmakes.entry]

/-- **The search for a table** fails exactly if the name is obstructed, and has made strings only then. Otherwise it
comes to a table.

**Proof sketch.** By induction on the parts. Where there is a table, the search goes on from it with one more string,
which does not change what is in the way of the rest. From a new table on nothing is in the way, so that the search does
not fail any more. -/
theorem findTable_cases (library : String) (size : ℕ) (parts : List String) (hs : s.Sound) (hstart : s.Live start)
    (htable : start.isTable = true) (hfits : (findTable library size parts start s).2.heap.Fits) :
    (s.Obstructed parts start ∧ ∃ texts, texts <+: parts ∧
      findTable library size parts start s = (.error (.nameConflict library), s.withStrings texts)) ∨
    (¬ s.Obstructed parts start ∧ ∃ v u, findTable library size parts start s = (.ok v, u)) := by
  induction parts generalizing s start with
  | nil => exact .inr ⟨not_obstructed_nil s start, start, s, rfl⟩
  | cons part rest ih =>
    obtain ⟨i, hi, hfitsm, hrun⟩ := findTable_cons library size hs hstart hfits
    obtain ⟨hm, hsm⟩ := moreStrings_withStrings hs [part]
    rw [hrun, proceed] at hfits
    rw [hrun, proceed, obstructed_cons]
    split
    · next hnil =>
      rw [if_pos hnil] at hfits
      obtain ⟨c, hc⟩ := table?_of_isTable htable
      obtain ⟨n, -, x, -, -, hx, hn, hntable, hblank, -, hmade⟩ :=
        exists_made hm (hsm.live hstart) hc hi (fun _ => .findTable _ _ _ _) hfits
      rw [hmade] at hfits ⊢
      refine .inr ⟨?_, ?_⟩
      · rintro (⟨hsome, -⟩ | ⟨hsome, -⟩)
        · rw [hnil] at hsome
          cases hsome
        · rw [isNil_of_isTable hsome] at hnil
          cases hnil
      · obtain ⟨hobstructed, -⟩ | ⟨-, hfound⟩ := ih hx hn hntable hfits
        · exact absurd hobstructed (not_obstructed_of_blank hblank rest)
        · exact hfound
    next hnil =>
    rw [if_neg hnil] at hfits
    split
    · next hnext =>
      rw [if_pos hnext] at hfits
      have hlive := hs.live_lookup hstart part
      obtain ⟨hobstructed, texts, htexts, hfound⟩ | ⟨hfree, hfound⟩ := ih hm (hsm.live hlive) hnext hfits
      · refine .inl ⟨.inr ⟨hnext, (hsm.obstructed_iff hs hm hfitsm hlive rest).1 hobstructed⟩, part :: texts,
          List.cons_prefix_cons.2 ⟨rfl, htexts⟩, hfound⟩
      · refine .inr ⟨?_, hfound⟩
        rintro (⟨-, hnot⟩ | ⟨-, hobstructed⟩)
        · rw [hnext] at hnot
          cases hnot
        · exact hfree ((hsm.obstructed_iff hs hm hfitsm hlive rest).2 hobstructed)
    · next hnext =>
      rw [Bool.not_eq_true] at hnil hnext
      exact .inl ⟨.inl ⟨hnil, hnext⟩, [part], List.cons_prefix_cons.2 ⟨rfl, List.nil_prefix⟩, rfl⟩

/-! ## Registrations that conflict -/

/-- **A table is searched for and recorded**, which fails only if the search does. -/
lemma recordTable_cases {record : Value} {l size : ℕ} (hs : s.Sound) (hrecord : s.Live record)
    (hl : record.table? = some l) (hfits : (recordTable record (.string i) name size s).2.heap.Fits) :
    ∃ r u, findTable name size (nameParts name) (.table s.globals) s = (r, u) ∧ u.heap.Fits ∧
      ((∃ e, r = .error e ∧ recordTable record (.string i) name size s = (.error e, u)) ∨
        ∃ v w, r = .ok v ∧ w = { u with heap := u.heap.write l (.string i) v } ∧
          rawSet record (.string i) v u = (.ok (), w) ∧ recordTable record (.string i) name size s = (.ok v, w)) := by
  obtain ⟨r, u, hfind⟩ : ∃ r u, findTable name size (nameParts name) (.table s.globals) s = (r, u) := ⟨_, _, rfl⟩
  have hrun : recordTable record (.string i) name size s =
      andThen (r, u) fun v => rawSet record (.string i) v >>= fun _ => pure v := by
    rw [recordTable, bind_apply, get_apply, andThen_ok, bind_apply, ← hfind]
  rw [hrun] at hfits ⊢
  refine ⟨r, u, hfind, ?_⟩
  rcases r with e | v
  · exact ⟨hfits, .inl ⟨e, rfl, rfl⟩⟩
  rw [andThen_ok] at hfits ⊢
  have hspans : Keeps Heap.Spans (rawSet record (.string i) v >>= fun _ => pure v) :=
    (Keeps.rawSet _ _ _).bind fun _ => .pure v
  -- what records the table is still in use
  have hgrows := (safeAt_findTable hs name size (nameParts name) (hs.root _ .globals)).grows
  rw [hfind] at hgrows
  have hset := rawSet_string i v hl ((hrecord.mono hgrows).inUse_table hl).lt_size
  refine ⟨(hspans u).fits hfits, .inr ⟨v, _, rfl, rfl, hset, ?_⟩⟩
  rw [bind_apply, hset]
  rfl

/-- **A registration** is the search for the table of the library, which is pushed then. -/
lemma exists_libraryTable (size : ℕ) (hfits : (registerLibrary name size s).2.heap.Fits) :
    ∃ r u, libraryTable name size s = (r, u) ∧ u.heap.Fits ∧
      registerLibrary name size s = andThen (r, u) fun v => push v >>= fun _ => pure v := by
  obtain ⟨r, u, hlib⟩ : ∃ r u, libraryTable name size s = (r, u) := ⟨_, _, rfl⟩
  have hrun : registerLibrary name size s = andThen (r, u) fun v => push v >>= fun _ => pure v := by
    rw [registerLibrary_eq, bind_apply, hlib]
  refine ⟨r, u, hlib, ?_, hrun⟩
  rw [hrun] at hfits
  rcases r with e | v
  · exact hfits
  · rw [andThen_ok] at hfits
    have hspans : Keeps Heap.Spans (push v >>= fun _ => pure v) := (Keeps.push v).bind fun _ => .pure v
    exact (hspans u).fits hfits

section Loaded

variable (hs : s.Sound) (hloaded : s.loaded.isTable = true)

include hs hloaded

lemma loadedTable_eq : loadedTable s = (.ok s.loaded, s) := by
  obtain ⟨i, hi, hget⟩ := exists_string_of_lookup hs.heap.orderly.interning (isNil_of_isTable hloaded)
  exact loadedTable_of_isTable hs.heap.orderly.interning hi hget.symm hloaded

/-- The name gets a string, and what is recorded under it is looked up. -/
lemma libraryTable_eq (name : String) (size : ℕ) (hfits : (libraryTable name size s).2.heap.Fits) :
    ∃ i, (s.withStrings [name]).heap.HoldsString i (Text.bytes name) ∧ (s.withStrings [name]).heap.Fits ∧
      libraryTable name size s = (if (s.lookup s.loaded name).isTable then pure (s.lookup s.loaded name)
        else recordTable s.loaded (.string i) name size) (s.withStrings [name]) := by
  obtain ⟨hm, hsm⟩ := moreStrings_withStrings hs [name]
  have hi : (s.withStrings [name]).heap.HoldsString (s.heap.intern (Text.bytes name)).1 (Text.bytes name) :=
    hs.heap.orderly.interning.holdsString_index _
  have hlookup := lookup_of_holdsString hm.heap.orderly.interning hi s.loaded
  have hrun : libraryTable name size s =
      (if ((s.withStrings [name]).lookup s.loaded name).isTable then pure ((s.withStrings [name]).lookup s.loaded name)
        else recordTable s.loaded (.string (s.heap.intern (Text.bytes name)).1) name size) (s.withStrings [name]) := by
    rw [libraryTable, bind_apply, loadedTable_eq hs hloaded, andThen_ok, hlookup]
    rfl
  have hfitsm : (s.withStrings [name]).heap.Fits := by
    rw [hrun] at hfits
    have hspans : ∀ v, Keeps Heap.Spans (if v.isTable then pure v else
        recordTable s.loaded (.string (s.heap.intern (Text.bytes name)).1) name size) :=
      fun v => .ite (.pure v) (keeps_spans_recordTable _ _ _ _)
    exact (hspans _ _).fits hfits
  rw [hsm.lookup_eq hs hm hfitsm hs.live_loaded] at hrun
  exact ⟨_, hi, hfitsm, hrun⟩

/-- **The table of a library** is the one that is recorded, or it is searched for along the name. -/
theorem libraryTable_cases (name : String) (size : ℕ) (hfits : (libraryTable name size s).2.heap.Fits) :
    ((s.lookup s.loaded name).isTable = true ∧
      libraryTable name size s = (.ok (s.lookup s.loaded name), s.withStrings [name])) ∨
    ((s.lookup s.loaded name).isTable = false ∧ s.Obstructed (nameParts name) (.table s.globals) ∧
      ∃ texts, texts <+: nameParts name ∧
        libraryTable name size s = (.error (.nameConflict name), s.withStrings (name :: texts))) ∨
    ((s.lookup s.loaded name).isTable = false ∧ ¬ s.Obstructed (nameParts name) (.table s.globals) ∧
      ∃ v u, libraryTable name size s = (.ok v, u)) := by
  obtain ⟨i, -, hfitsm, hrun⟩ := libraryTable_eq hs hloaded name size hfits
  rw [hrun] at hfits ⊢
  split
  · next htable => exact .inl ⟨htable, rfl⟩
  next hnot =>
  rw [if_neg hnot] at hfits
  rw [Bool.not_eq_true] at hnot
  obtain ⟨hm, hsm⟩ := moreStrings_withStrings hs [name]
  have hglobals := hs.root _ .globals
  obtain ⟨l, hl⟩ := table?_of_isTable hloaded
  obtain ⟨r, u, hfind, hfitsu, hcases⟩ := recordTable_cases hm (hsm.live hs.live_loaded) hl hfits
  have hroot : (s.withStrings [name]).globals = s.globals := by rw [hsm.rest]
  rw [hroot] at hfind
  have hsearch := findTable_cases name size (nameParts name) hm (hsm.live hglobals)
    (isTable_of_table? (Value.table?_table _)) (by rwa [hfind])
  rw [hfind, hsm.obstructed_iff hs hm hfitsm hglobals] at hsearch
  obtain ⟨hobstructed, texts, htexts, hfailed⟩ | ⟨hfree, v, u', hfound⟩ := hsearch
  · obtain ⟨rfl, rfl⟩ := Prod.mk.inj hfailed
    obtain ⟨e, he, hrecord⟩ | ⟨_, _, hok, -⟩ := hcases
    · cases he
      exact .inr (.inl ⟨hnot, hobstructed, texts, htexts, hrecord⟩)
    · cases hok
  · obtain ⟨rfl, rfl⟩ := Prod.mk.inj hfound
    obtain ⟨e, he, -⟩ | ⟨w, x, -, -, -, hrecord⟩ := hcases
    · cases he
    · exact .inr (.inr ⟨hnot, hfree, w, x, hrecord⟩)

/-- **A registration fails with a conflict** exactly if no table is recorded under the name, and the name is
obstructed. -/
theorem registerLibrary_conflict (name : String) (size : ℕ) (hfits : (registerLibrary name size s).2.heap.Fits) :
    ((registerLibrary name size s).1 = .error (.nameConflict name) ↔
      (s.lookup s.loaded name).isTable = false ∧ s.Obstructed (nameParts name) (.table s.globals)) ∧
    ((registerLibrary name size s).1 = .error (.nameConflict name) →
      ∃ texts, texts <+: nameParts name ∧ (registerLibrary name size s).2 = s.withStrings (name :: texts)) := by
  obtain ⟨r, u, hlib, hfitsu, hrun⟩ := exists_libraryTable size hfits
  -- whether there is room for the table does not matter
  have hpush : ∀ v w, (andThen (.ok v, w) fun v => push v >>= fun _ => pure v).1 ≠ .error (.nameConflict name) := by
    intro v w
    rw [andThen_ok, bind_apply, push_apply]
    split <;> exact nofun
  rw [hrun]
  have hcases := libraryTable_cases hs hloaded name size (by rwa [hlib])
  rw [hlib] at hcases
  obtain ⟨htable, hfound⟩ | ⟨hnot, hobstructed, texts, htexts, hfailed⟩ | ⟨hnot, hfree, v, u', hfound⟩ := hcases
  · obtain ⟨rfl, rfl⟩ := Prod.mk.inj hfound
    refine ⟨iff_of_false (hpush _ _) fun h => ?_, fun h => absurd h (hpush _ _)⟩
    rw [htable] at h
    cases h.1
  · obtain ⟨rfl, rfl⟩ := Prod.mk.inj hfailed
    exact ⟨iff_of_true rfl ⟨hnot, hobstructed⟩, fun _ => ⟨texts, htexts, rfl⟩⟩
  · obtain ⟨rfl, rfl⟩ := Prod.mk.inj hfound
    exact ⟨iff_of_false (hpush _ _) fun h => hfree h.2, fun h => absurd h (hpush _ _)⟩

end Loaded

/-- **What a conflict leaves as it was**: strings for the name and for its first parts have been made at most. No table
has been made or changed, and the rest of the state is as before. -/
structure Undisturbed (name : String) (s u : State) : Prop extends MoreStrings s u where
  texts : ∃ texts, texts <+: name :: nameParts name ∧ u = s.withStrings texts
  lookup : ∀ v, s.Live v → ∀ name', u.lookup v name' = s.lookup v name'
  loaded : u.loaded = s.loaded

/-- **A name conflict leaves the tables as they are.** A registration fails with a conflict exactly if no table is
recorded under the name and there is a value in the way of the name that is no table, and then only strings have been
made.

**Proof sketch.** What is recorded is given, and whether there is room for it on the stack or not, there is no conflict.
Otherwise the search along the name decides, which fails only as long as it has not made any table. -/
theorem nameConflict_iff (name : String) (size : ℕ) (hs : s.Sound) (hloaded : s.loaded.isTable = true)
    (hfits : (registerLibrary name size s).2.heap.Fits) :
    ((registerLibrary name size s).1 = .error (.nameConflict name) ↔
      (s.lookup s.loaded name).isTable = false ∧ s.Obstructed (nameParts name) (.table s.globals)) ∧
    ((registerLibrary name size s).1 = .error (.nameConflict name) →
      s.Undisturbed name (registerLibrary name size s).2) := by
  obtain ⟨hiff, hconflict⟩ := registerLibrary_conflict hs hloaded name size hfits
  refine ⟨hiff, fun hfailed => ?_⟩
  obtain ⟨texts, htexts, hu⟩ := hconflict hfailed
  obtain ⟨hsound, hmore⟩ := moreStrings_withStrings hs (name :: texts)
  rw [← hu] at hsound hmore
  have hlookup : ∀ v, s.Live v → ∀ name', (registerLibrary name size s).2.lookup v name' = s.lookup v name' :=
    fun v hv => hmore.lookup_eq hs hsound hfits hv
  refine ⟨hmore, ⟨name :: texts, List.cons_prefix_cons.2 ⟨rfl, htexts⟩, hu⟩, hlookup, ?_⟩
  have hregistry : (registerLibrary name size s).2.registry = s.registry := by rw [hmore.rest]
  rw [State.loaded, hregistry, hlookup _ (hs.root _ .registry)]
  rfl

/-! ### A machine with one global -/

/-- A new machine with a global that is no table. -/
def withGlobal (name : String) (b : Bool) : State := (setGlobal name (.bool b) State.new).2

variable (name) (b : Bool)

lemma sound_withGlobal : (withGlobal name b).Sound :=
  (safeAt_setGlobal sound_new name (live_of_isPlain (Value.isPlain_bool b))).sound

lemma hasAtMost_withGlobal : (withGlobal name b).heap.HasAtMost 5 :=
  allots_setGlobal name (.bool b) _ 4 hasAtMost_new

/-- The name gets a string, and the global is written. -/
lemma withGlobal_eq : ∃ j, (State.new.withStrings [name]).heap.HoldsString j (Text.bytes name) ∧
    withGlobal name b = (rawSet (.table State.new.globals) (.string j) (.bool b) (State.new.withStrings [name])).2 := by
  refine ⟨_, sound_new.heap.orderly.interning.holdsString_index _, ?_⟩
  rw [withGlobal, setGlobal, bind_apply, intern, internBytes_eq, onHeap, andThen_ok, bind_apply, get_apply, andThen_ok]
  rfl

/-- The global is written, and the rest is as in a new machine. -/
lemma exists_withGlobal : ∃ j u, u.Sound ∧ State.new.MoreStrings u ∧ u.heap.HoldsString j (Text.bytes name) ∧
    withGlobal name b = { u with heap := u.heap.write State.new.globals (.string j) (.bool b) } := by
  obtain ⟨hsound, hmore⟩ := moreStrings_withStrings sound_new [name]
  have hlt : State.new.globals < (State.new.withStrings [name]).heap.tables.items.size := by
    rw [hmore.tables]
    exact keepsLibraries_new.1.globals.lt_size
  obtain ⟨j, hj, hrun⟩ := withGlobal_eq name b
  have hset := rawSet_string j (.bool b)
    (show (Value.table State.new.globals).table? = some State.new.globals from Value.table?_table _) hlt
  refine ⟨j, _, hsound, hmore, hj, ?_⟩
  rw [hrun, hset]

/-- The table of libraries is there, and has no table. -/
lemma loaded_withGlobal : (withGlobal name b).loaded.isTable = true ∧
    ∀ name', ((withGlobal name b).lookup (withGlobal name b).loaded name').isTable = false := by
  have hinterning := (sound_withGlobal name b).heap.orderly.interning
  obtain ⟨j, u, -, hu, -, hw⟩ := exists_withGlobal name b
  obtain ⟨⟨i, l, hi, hl, hlt, hblank⟩, -⟩ := bare_new
  have htable : ∀ t < Value.payloadLimit, (Value.table t).table? = some t := fun t ht => by
    rw [Value.table?_table, Nat.mod_eq_of_lt ht]
  have hget : ∀ i k, (withGlobal name b).heap.tableGet i k =
      (State.new.heap.write State.new.globals (.string j) (.bool b)).tableGet i k := fun i k => by
    refine Heap.tableGet_of_tables_eq ?_ i k
    rw [hw, Heap.write, Heap.write, hu.tables]
  have hkey : (withGlobal name b).heap.HoldsString i (Text.bytes loadedKey) := by
    have hheld := hu.strings i _ hi
    rw [hw]
    exact ⟨hheld.inUse, hheld.content⟩
  have hregistry : (withGlobal name b).registry = State.new.registry := by rw [hw, hu.rest]
  have hloaded : (withGlobal name b).loaded = .table l := by
    rw [loaded, lookup_of_holdsString hinterning hkey, hregistry,
      rawGet_of_table? (htable State.new.registry (by decide)), hget, Heap.tableGet_write_of_ne (by decide), ← hl]
    exact (rawGet_of_table? (htable State.new.registry (by decide)) _).symm
  refine ⟨hloaded ▸ isTable_of_table? (htable l hlt), fun name' => ?_⟩
  rw [hloaded, lookup]
  split
  · next k _ =>
    have hold : State.new.heap.tableGet l (.string k) = .nil :=
      (rawGet_of_table? (htable l hlt) _).symm.trans (rawGet_of_isBlank hblank hlt _)
    rw [rawGet_of_table? (htable l hlt), hget]
    rcases Heap.tableGet_write_cases State.new.heap State.new.globals l (.string j) (.bool b) (.string k) with
      heq | ⟨-, -, heq | heq⟩ <;> rw [heq]
    · rw [hold]
      rfl
    · rfl
    · cases b <;> rfl
  · rfl

/-- The global is looked up. -/
lemma lookup_withGlobal :
    (withGlobal name b).lookup (.table (withGlobal name b).globals) name = .bool b := by
  obtain ⟨j, u, hsound, hu, hj, hw⟩ := exists_withGlobal name b
  have hglobals : (withGlobal name b).globals = State.new.globals := by rw [hw, hu.rest]
  have hlt : State.new.globals < u.heap.tables.items.size := by
    rw [hu.tables]
    exact keepsLibraries_new.1.globals.lt_size
  rw [hglobals, hw]
  exact lookup_write_self hsound.heap.orderly.interning hj (Value.table?_table _) hlt (by cases b <;> rfl)

omit name b in
/-- The library `bad.inner` cannot be registered where the global `bad` is `false`. -/
theorem nameConflict_iff_badGlobal :
    (registerLibrary "bad.inner" 0 (withGlobal "bad" false)).1 = .error (.nameConflict "bad.inner") ∧
      (withGlobal "bad" false).Undisturbed "bad.inner" (registerLibrary "bad.inner" 0 (withGlobal "bad" false)).2 := by
  have hparts : nameParts "bad.inner" = ["bad", "inner"] := by decide +kernel
  have hregistered := allots_registerLibrary "bad.inner" 0 _ 5 (hasAtMost_withGlobal "bad" false)
  rw [hparts] at hregistered
  obtain ⟨htable, hnot⟩ := loaded_withGlobal "bad" false
  obtain ⟨hiff, hdone⟩ := nameConflict_iff "bad.inner" 0 (sound_withGlobal "bad" false) htable
    (hregistered.fits (by decide))
  have hconflict := hiff.2 ⟨hnot _, by
    rw [hparts, obstructed_cons, lookup_withGlobal]
    exact .inl ⟨rfl, rfl⟩⟩
  exact ⟨hconflict, hdone hconflict⟩

end ScriptCore.State
