import ScriptCore.Proofs.CorrespondingCollections
import ScriptCore.Proofs.LibraryRegistration

set_option relaxedAutoImplicit false
set_option autoImplicit false

/-!
# Tables of libraries in the heap

The registry has a table of libraries, and this has the table of each library under the name of the library. Nobody
but the machine writes to the two as long as they cannot be found from the globals. Then what is recorded there stays
recorded, whatever is made or written elsewhere, and through collections.

## Main definitions

* `ScriptCore.Heap.Avoids` — values from which certain tables are not found.
* `ScriptCore.Heap.KeepsLibraries`, `ScriptCore.Heap.Records` — heaps with a table of libraries, and what it records.
* `ScriptCore.Heap.Closed` — tables in use hold tables in use only.

## Main results

* `ScriptCore.Heap.Avoids.of_entries` — certain tables are not found behind a change, either.
* `ScriptCore.Heap.KeepsLibraries.intern`, `ScriptCore.Heap.KeepsLibraries.newTable`,
  `ScriptCore.Heap.KeepsLibraries.write`, `ScriptCore.Heap.KeepsLibraries.record`,
  `ScriptCore.Heap.KeepsLibraries.collect` — what each change does to the table of libraries.
-/

namespace ScriptCore

/-- A string is the key of itself only. -/
lemma Value.eq_of_normalizeKey {v : Value} {i : ℕ} (h : v.normalizeKey = .string i) : v = .string i := by
  rcases v.normalizeKey_eq with heq | hplain
  · rw [← heq, h]
  · have hobject := hplain.object
    rw [h, Value.string, Value.object?_box (by decide), if_pos rfl] at hobject
    cases hobject

namespace Heap

variable {g r l i j k n : ℕ} {h h' h'' : Heap} {P : ℕ → Prop} {key value v : Value} {name : String}

/-! ## Reading behind a change -/

/-- The heap behind a write to a table. -/
def write (h : Heap) (i : ℕ) (key value : Value) : Heap :=
  { h with tables := h.tables.modify i (·.set key value) }

lemma tableGet_write (h : Heap) (i j : ℕ) (key value k : Value) : (h.write i key value).tableGet j k =
    if i = j ∧ j < h.tables.items.size ∧ key.normalizeKey = k.normalizeKey then
      (if value.isNil then .nil else value)
    else h.tableGet j k := by
  unfold tableGet write
  rw [Arena.get?_modify]
  by_cases hij : i = j
  · subst hij
    rcases ht : h.tables.get? i with _ | t
    · have hsize : ¬ i < h.tables.items.size := fun hlt => by
        rw [Arena.get?, Array.getElem?_eq_getElem hlt] at ht
        cases ht
      simp [hsize]
    · have hsize := Arena.lt_size_of_get? ht
      simp [hsize, t.get_set key k value]
  · simp [hij]

lemma tableGet_write_of_ne (hij : i ≠ j) (key value k : Value) :
    (h.write i key value).tableGet j k = h.tableGet j k := by
  rw [tableGet_write, if_neg fun hall => hij hall.1]

/-- An entry behind a write is an old one, the value that was written, or none. -/
lemma tableGet_write_cases (h : Heap) (i j : ℕ) (key value k : Value) :
    (h.write i key value).tableGet j k = h.tableGet j k ∨
      i = j ∧ key.normalizeKey = k.normalizeKey ∧
        ((h.write i key value).tableGet j k = .nil ∨ (h.write i key value).tableGet j k = value) := by
  rw [tableGet_write]
  split
  · next hall =>
    refine .inr ⟨hall.1, hall.2.2, ?_⟩
    split
    · exact .inl rfl
    · exact .inr rfl
  · exact .inl rfl

lemma tableGet_of_tables_eq (htables : h'.tables = h.tables) (i : ℕ) (key : Value) :
    h'.tableGet i key = h.tableGet i key := by
  rw [tableGet, tableGet, htables]

lemma tableGet_of_sameEntry (hs : h.SameEntry h' (.table i)) (key : Value) :
    h'.tableGet i key = h.tableGet i key := by
  have hsame : h'.tables.get? i = h.tables.get? i := hs
  rw [tableGet, tableGet, hsame]

/-- A new table has no entry, and the other tables are as they were. -/
lemma tableGet_newTable (hwf : h.FreeWellFormed) (size i : ℕ) (key : Value) :
    (h.newTable size).2.tableGet i key = if i = (h.newTable size).1 then .nil else h.tableGet i key := by
  by_cases hi : i = (h.newTable size).1
  · subst hi
    rw [if_pos rfl, tableGet, get?_newTable hwf size]
    exact Std.HashMap.getD_empty
  · have hsame : (h.newTable size).2.tables.get? i = h.tables.get? i := Arena.get?_alloc_of_ne h.tables .empty hi
    rw [if_neg hi, tableGet, tableGet, hsame]

/-- A collection leaves each entry of a table as it was, or takes it away. -/
lemma tableGet_collect (s : State) (i : ℕ) (key : Value) :
    s.collect.heap.tableGet i key = s.heap.tableGet i key ∨ s.collect.heap.tableGet i key = .nil := by
  obtain ⟨marked, hmarked⟩ : ∃ marked, s.collect.heap.tables = s.heap.tables.sweep marked .empty := ⟨_, rfl⟩
  rw [tableGet, tableGet, hmarked]
  by_cases hi : i ∈ s.heap.tables.unmarked marked
  · rw [Arena.get?_sweep_of_unmarked _ _ _ hi]
    exact .inr Std.HashMap.getD_empty
  · rw [Arena.get?_sweep _ _ _ hi]
    exact .inl rfl

/-- A table refers to its keys and to their values. -/
lemma refers_of_tableGet_ne (hkey : h.tableGet i key ≠ .nil) :
    h.Refers (.table i) key.normalizeKey ∧ h.Refers (.table i) (h.tableGet i key) := by
  unfold tableGet at *
  split at hkey
  · next t ht =>
    rw [Table.get, Std.HashMap.getD_eq_getD_getElem?] at *
    rcases hv : t.entries[key.normalizeKey]? with _ | v
    · rw [hv] at hkey
      exact absurd rfl hkey
    · exact ⟨.key ht hv, .value ht hv⟩
  · exact absurd rfl hkey

lemma refers_of_tableGet (hkey : (h.tableGet i key).isNil = false) :
    h.Refers (.table i) key.normalizeKey ∧ h.Refers (.table i) (h.tableGet i key) := by
  refine refers_of_tableGet_ne fun hnil => ?_
  rw [hnil] at hkey
  cases hkey

/-! ## Tables that are not found -/

/-- A table holds another one as the value of a key. -/
def Holds (h : Heap) (i j : ℕ) : Prop := ∃ key, (h.tableGet i key).table? = some j

/-- **A value avoids certain tables**: none of them is found from it by going from tables to the values of their
keys. -/
def Avoids (h : Heap) (P : ℕ → Prop) (v : Value) : Prop :=
  ∀ i j, v.table? = some i → Relation.ReflTransGen h.Holds i j → ¬ P j

lemma avoids_of_table? (hv : v.table? = none) : h.Avoids P v := fun i _ hi => by
  rw [hv] at hi
  cases hi

lemma avoids_nil : h.Avoids P .nil := avoids_of_table? Value.isPlain_nil.table?

lemma Avoids.not (hv : h.Avoids P v) (hi : v.table? = some i) : ¬ P i := hv i i hi .refl

/-- From an empty table nothing but itself is found. -/
lemma avoids_of_blank (hblank : ∀ key, h.tableGet i key = .nil) (hv : v.table? = some i) (hi : ¬ P i) :
    h.Avoids P v := by
  intro j k hj hjk
  rw [hv, Option.some.injEq] at hj
  subst hj
  cases hjk.cases_head with
  | inl heq => exact heq ▸ hi
  | inr hstep =>
    obtain ⟨_, ⟨key, hkey⟩, -⟩ := hstep
    rw [hblank, Value.isPlain_nil.table?] at hkey
    cases hkey

/-- What a table holds avoids what the table avoids. -/
lemma Avoids.tableGet (hv : h.Avoids P v) (hi : v.table? = some i) (key : Value) :
    h.Avoids P (h.tableGet i key) := fun _ k hj hk => hv i k hi (.head ⟨key, hj⟩ hk)

/-- **Certain tables are not found behind a change, either**, if each entry is an old one or avoided them before.

**Proof sketch.** By induction on the way from the value: from each table on it, none of those tables could be found
before the change. -/
theorem Avoids.of_entries (hentries : ∀ i key, h'.tableGet i key = h.tableGet i key ∨ h.Avoids P (h'.tableGet i key))
    (hv : h.Avoids P v) : h'.Avoids P v := by
  intro i j hi hij
  have hfound : ∀ k, Relation.ReflTransGen h.Holds j k → ¬ P k := by
    induction hij with
    | refl => exact fun k hk => hv i k hi hk
    | tail _ hstep ih =>
      obtain ⟨key, hkey⟩ := hstep
      rcases hentries _ key with heq | havoids
      · exact fun k hk => ih k (.head ⟨key, heq ▸ hkey⟩ hk)
      · exact fun k hk => havoids _ k hkey hk
  exact hfound j .refl

/-! ## Heaps with a table of libraries -/

/-- The registry and the table of libraries. -/
def Reserved (r l i : ℕ) : Prop := i = r ∨ i = l

/-- An entry of the table of libraries has a string as key and a table as value, which is none of the reserved
ones. -/
structure IsEntry (r l : ℕ) (h : Heap) (key v : Value) : Prop where
  key : ∃ i, key = .string i ∧ h.InUse (.string i)
  table : ∃ i, v.table? = some i ∧ ¬ Reserved r l i

/-- **A heap keeps libraries** in the table `l`, which is found in the registry `r` and not from the globals `g`. -/
structure KeepsLibraries (g r l : ℕ) (h : Heap) : Prop where
  regular : h.Regular
  globals : h.InUse (.table g)
  registry : h.InUse (.table r)
  libraries : h.InUse (.table l)
  ne : r ≠ l
  key : ∃ i, h.HoldsString i (Text.bytes State.loadedKey) ∧ h.tableGet r (.string i) = .table l
  entry : ∀ key, (h.tableGet l key).isNil = false → IsEntry r l h key (h.tableGet l key)
  apart : h.Avoids (Reserved r l) (.table g)

/-- A library is recorded with its table. -/
structure Records (l : ℕ) (h : Heap) (name : String) (v : Value) : Prop where
  notNil : v.isNil = false
  entry : ∃ i, h.HoldsString i (Text.bytes name) ∧ h.tableGet l (.string i) = v

/-- **A heap retains libraries** through a change: they are kept, and those recorded stay recorded. -/
structure Retains (g r l : ℕ) (h h' : Heap) : Prop where
  keeps : KeepsLibraries g r l h'
  records : ∀ name v, Records l h name v → Records l h' name v

/-- **A change leaves libraries alone**: strings and tables are added, and the table of libraries is as it was. -/
structure Leaves (g r l : ℕ) (h h' : Heap) : Prop where
  keeps : KeepsLibraries g r l h'
  adds : h.Adds h'
  libraries : ∀ key, h'.tableGet l key = h.tableGet l key

lemma Retains.trans (hh : Retains g r l h h') (hh' : Retains g r l h' h'') : Retains g r l h h'' :=
  ⟨hh'.keeps, fun name v hv => hh'.records name v (hh.records name v hv)⟩

lemma Leaves.trans (hh : Leaves g r l h h') (hh' : Leaves g r l h' h'') : Leaves g r l h h'' :=
  ⟨hh'.keeps, hh.adds.trans hh'.adds, fun key => (hh'.libraries key).trans (hh.libraries key)⟩

/-- What is recorded stays so if strings and the table of libraries stay. -/
lemma Records.mono (hv : Records l h name v) (hstrings : ∀ i c, h.HoldsString i c → h'.HoldsString i c)
    (hlibraries : ∀ key, (h.tableGet l key).isNil = false → h'.tableGet l key = h.tableGet l key) :
    Records l h' name v := by
  obtain ⟨hnil, i, hi, rfl⟩ := hv
  exact ⟨hnil, i, hstrings i _ hi, hlibraries _ hnil⟩

lemma Leaves.retains (hh : Leaves g r l h h') : Retains g r l h h' :=
  ⟨hh.keeps, fun _ _ hv => hv.mono hh.adds.strings fun key _ => hh.libraries key⟩

namespace KeepsLibraries

variable (hk : KeepsLibraries g r l h)

include hk

lemma table_lt (hi : h.InUse (.table i)) : i < Value.payloadLimit := hk.regular.index_lt hi

lemma table?_table (hi : h.InUse (.table i)) : (Value.table i).table? = some i := by
  rw [Value.table?_table, Nat.mod_eq_of_lt (hk.table_lt hi)]

lemma refl : Leaves g r l h h := ⟨hk, .refl h, fun _ => rfl⟩

/-- The globals are not reserved. -/
lemma globals_not_reserved : ¬ Reserved r l g := hk.apart.not (hk.table?_table hk.globals)

/-- Strings in use with different contents are different keys. -/
lemma string_inj {c d : List UInt8} (hi : h.HoldsString i c) (hj : h.HoldsString j d)
    (heq : Value.string i = .string j) : c = d := by
  have hij : Object.string i = .string j :=
    (Object.value_inj (hk.regular.index_lt hi.inUse) (hk.regular.index_lt hj.inUse)).1 heq
  cases hij
  exact hi.content_unique hj

/-- A library has one table. -/
lemma records_unique {w : Value} (hv : Records l h name v) (hw : Records l h name w) : v = w := by
  obtain ⟨i, hi, rfl⟩ := hv.entry
  obtain ⟨j, hj, rfl⟩ := hw.entry
  rw [hk.regular.interning.handle_unique hi hj]

/-- What is recorded is a table, which is not reserved. -/
lemma records_table (hv : Records l h name v) : ∃ i, v.table? = some i ∧ ¬ Reserved r l i := by
  obtain ⟨i, -, rfl⟩ := hv.entry
  exact (hk.entry _ hv.notNil).table

/-! ## Changes -/

/-- **A change of one object** keeps libraries if it leaves the registry alone and writes proper entries to the table
of libraries. -/
lemma changesOnly {o : Object} (hc : h.ChangesOnly h' o) (hfits : h'.Fits) (hadds : h.Adds h')
    (hregistry : ∀ key, h'.tableGet r key = h.tableGet r key)
    (hlibraries : ∀ key, h'.tableGet l key = h.tableGet l key ∨ IsEntry r l h' key (h'.tableGet l key))
    (hapart : h'.Avoids (Reserved r l) (.table g)) : KeepsLibraries g r l h' where
  regular := hk.regular.changesOnly hc hfits
  globals := hc.inUse _ hk.globals
  registry := hc.inUse _ hk.registry
  libraries := hc.inUse _ hk.libraries
  ne := hk.ne
  key := by
    obtain ⟨i, hi, hget⟩ := hk.key
    exact ⟨i, hadds.strings i _ hi, (hregistry _).trans hget⟩
  entry key hkey := by
    rcases hlibraries key with heq | hentry
    · rw [heq] at hkey ⊢
      obtain ⟨⟨i, rfl, hi⟩, htable⟩ := hk.entry key hkey
      exact ⟨⟨i, rfl, hc.inUse _ hi⟩, htable⟩
    · exact hentry
  apart := hapart

/-- Making a string. -/
lemma intern (c : List UInt8) (hfits : (h.intern c).2.Fits) : Leaves g r l h (h.intern c).2 := by
  have hwf := hk.regular.wellFormed
  have hi := hk.regular.interning
  have hget := fun i => tableGet_of_tables_eq (h.tables_intern c) i
  have hadds := adds_intern hwf hi c
  exact ⟨hk.changesOnly (changesOnly_intern hwf hi c) hfits hadds (hget r) (fun key => .inl (hget l key))
    (hk.apart.of_entries fun i key => .inl (hget i key)), hadds, hget l⟩

/-- Making a table. -/
lemma newTable (size : ℕ) (hfits : (h.newTable size).2.Fits) : Leaves g r l h (h.newTable size).2 := by
  have hwf := hk.regular.wellFormed
  have hc := changesOnly_newTable hwf hk.regular.interning size
  have hget := tableGet_newTable hwf size
  have hold : ∀ {i} key, h.InUse (.table i) → (h.newTable size).2.tableGet i key = h.tableGet i key := by
    intro i key hi
    have hne : i ≠ (h.newTable size).1 := fun heq => (hwf.tables.alloc_index .empty).1 (heq ▸ hi)
    rw [hget, if_neg hne]
  have hadds : h.Adds (h.newTable size).2 := ⟨rfl, rfl, fun i c hi => ⟨hi.inUse, hi.content⟩, hc.inUse⟩
  refine ⟨hk.changesOnly hc hfits hadds (fun key => hold key hk.registry) (fun key => .inl (hold key hk.libraries))
    (hk.apart.of_entries fun i key => ?_), hadds, fun key => hold key hk.libraries⟩
  rw [hget]
  split
  · exact .inr avoids_nil
  · exact .inl rfl

omit hk in
lemma adds_write (hr : h.Regular) (i : ℕ) (key value : Value) : h.Adds (h.write i key value) :=
  ⟨rfl, rfl, fun _ _ hi => ⟨hi.inUse, hi.content⟩,
    (changesOnly_modifyTable hr.wellFormed hr.interning i (·.set key value)).inUse⟩

/-- Writing to a table that is not reserved, if the reserved ones are not found from the globals then. -/
lemma write (hi : ¬ Reserved r l i) (key value : Value)
    (hapart : (h.write i key value).Avoids (Reserved r l) (.table g)) : Leaves g r l h (h.write i key value) := by
  have hc := changesOnly_modifyTable hk.regular.wellFormed hk.regular.interning i (·.set key value)
  have hfits : (h.write i key value).Fits := Corresponds.fits_of_modifyTable i _ hk.regular.fits
  have hadds := adds_write hk.regular i key value
  have hregistry := tableGet_write_of_ne (h := h) (fun heq : i = r => hi (.inl heq)) key value
  have hlibraries := tableGet_write_of_ne (h := h) (fun heq : i = l => hi (.inr heq)) key value
  exact ⟨hk.changesOnly hc hfits hadds hregistry (fun k => .inl (hlibraries k)) hapart, hadds, hlibraries⟩

omit hk in
/-- The reserved tables are not found behind a write of what avoids them. -/
lemma avoids_write (hv : h.Avoids P v) (hvalue : h.Avoids P value) (i : ℕ) (key : Value) :
    (h.write i key value).Avoids P v := by
  refine hv.of_entries fun j k => ?_
  rcases tableGet_write_cases h i j key value k with heq | ⟨-, -, heq | heq⟩
  · exact .inl heq
  · exact .inr (heq ▸ avoids_nil)
  · exact .inr (by rwa [heq])

/-- What is recorded behind a change that leaves libraries alone was so before. -/
lemma records_of_leaves (hh : Leaves g r l h h') (hv : Records l h' name v) : Records l h name v := by
  obtain ⟨hnil, i, hi, rfl⟩ := hv
  rw [hh.libraries] at hnil ⊢
  obtain ⟨j, hij, hj⟩ := (hk.entry _ hnil).key
  obtain ⟨c, hc⟩ := Arena.InUse.exists_get? hj
  have hholds : h.HoldsString j c := ⟨hj, hc⟩
  have hname := hh.keeps.string_inj hi (hh.adds.strings j c hholds) hij
  exact ⟨hnil, j, hname ▸ hholds, by rw [hij]⟩

/-- **Recording a library** with a table from which the reserved ones are not found. -/
lemma record {c : List UInt8} (hj : h.HoldsString j c) (hnew : (h.tableGet l (.string j)).isNil = true)
    (ht : v.table? = some i) (hv : h.Avoids (Reserved r l) v) :
    Retains g r l h (h.write l (.string j) v) ∧ (h.write l (.string j) v).tableGet l (.string j) = v := by
  have hc := changesOnly_modifyTable hk.regular.wellFormed hk.regular.interning l (·.set (.string j) v)
  have hfits : (h.write l (.string j) v).Fits := Corresponds.fits_of_modifyTable l _ hk.regular.fits
  have hadds := adds_write hk.regular l (.string j) v
  have hnil : v.isNil = false := Value.isNil_of_object? (Value.object?_of_table? ht)
  have hsize : l < h.tables.items.size := hk.libraries.lt_size
  have hentry : (h.write l (.string j) v).tableGet l (.string j) = v := by
    rw [tableGet_write, if_pos ⟨rfl, hsize, rfl⟩, hnil]
    rfl
  have hother : ∀ key, key ≠ .string j → (h.write l (.string j) v).tableGet l key = h.tableGet l key := by
    intro key hkey
    rw [tableGet_write, if_neg fun hall => hkey (Value.eq_of_normalizeKey ?_)]
    rw [← hall.2.2, Value.normalizeKey_string]
  refine ⟨⟨hk.changesOnly hc hfits hadds (tableGet_write_of_ne hk.ne.symm _ _) (fun key => ?_)
    (avoids_write hk.apart hv l _), fun name w hw => hw.mono hadds.strings fun key hkey => hother key ?_⟩, hentry⟩
  · by_cases hkey : key = .string j
    · subst hkey
      exact .inr ⟨⟨j, rfl, hj.inUse⟩, i, by rwa [hentry], hv.not ht⟩
    · exact .inl (hother key hkey)
  · -- an entry that is there is that of another name
    rintro rfl
    rw [hnew] at hkey
    cases hkey

end KeepsLibraries

/-! ## Collections -/

variable {s : State}

/-- **A collection** keeps libraries: the table of libraries is reached from the registry, and the names from there. -/
theorem KeepsLibraries.collect (hk : KeepsLibraries s.globals s.registry l s.heap) :
    Retains s.globals s.registry l s.heap s.collect.heap := by
  have hregular := hk.regular
  have hc : s.Collected s.collect := (s.collect_exact hregular.wellFormed hregular.unmarked).1
  obtain ⟨i, hi, hget⟩ := hk.key
  have hreachesGlobals : s.Reaches (.table s.globals) := .root .globals (Value.object?_table (hk.table_lt hk.globals))
  have hreachesRegistry : s.Reaches (.table s.registry) :=
    .root .registry (Value.object?_table (hk.table_lt hk.registry))
  have hobject : (Value.table l).object? = some (.table l) := Value.object?_table (hk.table_lt hk.libraries)
  have hnil : (s.heap.tableGet s.registry (.string i)).isNil = false := by
    rw [hget]
    exact Value.isNil_of_object? hobject
  obtain ⟨hrefersKey, hrefers⟩ := refers_of_tableGet hnil
  have hreaches : s.Reaches (.table l) := .step hreachesRegistry (hget ▸ hrefers) hobject
  -- a string that is a key of a reached table stays in use
  have hstring : ∀ {t j : ℕ}, s.Reaches (.table t) → s.heap.Refers (.table t) (Value.string j).normalizeKey →
      s.heap.InUse (.string j) → s.Reaches (.string j) := by
    intro t j ht hrefers hj
    rw [Value.normalizeKey_string] at hrefers
    exact .step ht hrefers (Value.object?_string (hregular.index_lt hj))
  have hholds : ∀ {j : ℕ} {c : List UInt8}, s.Reaches (.string j) → s.heap.HoldsString j c →
      s.collect.heap.HoldsString j c := fun hj hc' =>
    ⟨hc.inUse_iff.2 ⟨hc'.inUse, hj⟩, (hc.kept _ hj).trans hc'.content⟩
  have hlibraries := tableGet_of_sameEntry (hc.kept _ hreaches)
  refine ⟨⟨hregular.collect, hc.inUse_iff.2 ⟨hk.globals, hreachesGlobals⟩,
    hc.inUse_iff.2 ⟨hk.registry, hreachesRegistry⟩, hc.inUse_iff.2 ⟨hk.libraries, hreaches⟩, hk.ne,
    ⟨i, hholds (hstring hreachesRegistry hrefersKey hi.inUse) hi, ?_⟩, fun key hkey => ?_,
    hk.apart.of_entries fun j key => ?_⟩, fun name v hv => ?_⟩
  · exact (tableGet_of_sameEntry (hc.kept _ hreachesRegistry) _).trans hget
  · rw [hlibraries] at hkey ⊢
    obtain ⟨⟨j, rfl, hj⟩, htable⟩ := hk.entry key hkey
    exact ⟨⟨j, rfl, hc.inUse_iff.2 ⟨hj, hstring hreaches (refers_of_tableGet hkey).1 hj⟩⟩, htable⟩
  · rcases tableGet_collect s j key with heq | heq
    · exact .inl heq
    · exact .inr (by rw [heq]; exact avoids_nil)
  · obtain ⟨hnil, j, hj, rfl⟩ := hv
    exact ⟨hnil, j, hholds (hstring hreaches (refers_of_tableGet hnil).1 hj.inUse) hj, hlibraries _⟩

/-! ## Tables in use -/

/-- Tables in use hold tables in use only. -/
def Closed (h : Heap) : Prop := ∀ i j, h.InUse (.table i) → h.Holds i j → h.InUse (.table j)

/-- What is found from a table in use is in use. -/
lemma Closed.found (hclosed : h.Closed) (hi : h.InUse (.table i)) (hij : Relation.ReflTransGen h.Holds i j) :
    h.InUse (.table j) := by
  induction hij with
  | refl => exact hi
  | tail _ hstep ih => exact hclosed _ _ ih hstep

lemma Closed.of_tables_eq (hclosed : h.Closed) (htables : h'.tables = h.tables) : h'.Closed := by
  intro i j hi ⟨key, hkey⟩
  rw [InUse, htables] at hi ⊢
  rw [tableGet_of_tables_eq htables] at hkey
  exact hclosed i j hi ⟨key, hkey⟩

lemma Closed.newTable (hclosed : h.Closed) (hr : h.Regular) (size : ℕ) : (h.newTable size).2.Closed := by
  have hc := changesOnly_newTable hr.wellFormed hr.interning size
  intro i j hi ⟨key, hkey⟩
  rw [tableGet_newTable hr.wellFormed] at hkey
  split at hkey
  · rw [Value.isPlain_nil.table?] at hkey
    cases hkey
  · next hne =>
    have hold := (hc.new _ hi).resolve_right fun heq => hne (Object.table.inj heq)
    exact hc.inUse _ (hclosed i j hold ⟨key, hkey⟩)

/-- A write of a table in use, or of what is no table. -/
lemma Closed.write (hclosed : h.Closed) (hvalue : ∀ j, value.table? = some j → h.InUse (.table j)) (i : ℕ)
    (key : Value) : (h.write i key value).Closed := by
  have hin : ∀ j, (h.write i key value).InUse (.table j) ↔ h.InUse (.table j) := fun j =>
    Arena.inUse_modify_iff h.tables i j _
  intro a b ha ⟨k, hk⟩
  rw [hin] at ha ⊢
  rcases tableGet_write_cases h i a key value k with heq | ⟨-, -, heq | heq⟩
  · exact hclosed a b ha ⟨k, heq ▸ hk⟩
  · rw [heq, Value.isPlain_nil.table?] at hk
    cases hk
  · exact hvalue b (heq ▸ hk)

lemma Closed.collect (hclosed : s.heap.Closed) (hr : s.heap.Regular) : s.collect.heap.Closed := by
  have hc : s.Collected s.collect := (s.collect_exact hr.wellFormed hr.unmarked).1
  intro i j hi ⟨key, hkey⟩
  obtain ⟨hin, hreaches⟩ := hc.inUse_iff.1 hi
  rw [tableGet_of_sameEntry (hc.kept _ hreaches)] at hkey
  have hobject := Value.object?_of_table? hkey
  exact hc.inUse_iff.2 ⟨hclosed i j hin ⟨key, hkey⟩,
    .step hreaches (refers_of_tableGet (Value.isNil_of_object? hobject)).2 hobject⟩

end Heap

end ScriptCore
