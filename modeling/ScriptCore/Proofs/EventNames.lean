import Mathlib
import ScriptCore.Proofs.Entries

set_option relaxedAutoImplicit false
set_option autoImplicit false

/-!
# Names of events

The fields of a metatable are looked up by the names of events. The name is a string, and for a name that is not
interned the answer is nil at once. Interning it first and reading the field like any other entry gives the same: the
name gets a handle that was not in use, and if no handle dangles, this is no key of a table, even if it has been the
handle of another string before. So a name that is interned is not noticed by any lookup, whatever is made or written
later.

## Main definitions

* `ScriptCore.Heap.NoneDangling` — heaps in which no handle dangles.
* `ScriptCore.Heap.metafieldInterning`, `ScriptCore.Heap.metafieldsInterning` — lookups that intern the name.
* `ScriptCore.Heap.AddsNames` — heaps in which more names are interned.

## Main results

* `ScriptCore.Heap.AddsNames.metafield` — further names change no lookup.
* `ScriptCore.Heap.metafieldsInterning_eq` — whole runs of lookups.
* `ScriptCore.Heap.metafield_eq_interning` — lookups with and without interning.
-/

namespace ScriptCore.Heap

variable {h k l : Heap} {v : Value} {i : ℕ}

/-! ## Lookups -/

/-- **No handle dangles**: whatever is kept in the heap refers to objects in use. -/
def NoneDangling (h : Heap) : Prop := ∀ o v o', h.Refers o v → v.object? = some o' → h.InUse o'

/-- The field of the metatable of a value, where the name is interned first, and then read like any other key. -/
def metafieldInterning (h : Heap) (v : Value) (event : String) : Value × Heap :=
  let (key, k) := h.intern (Text.bytes event)
  match k.metatableOf v with
  | some mt => (k.tableGet mt (.string key), k)
  | none => (.nil, k)

/-- Such lookups one after the other, and the heap behind them. -/
def metafieldsInterning : Heap → List (Value × String) → List Value × Heap
  | h, [] => ([], h)
  | h, (v, event) :: lookups =>
    let (f, k) := h.metafieldInterning v event
    let (fs, l) := k.metafieldsInterning lookups
    (f :: fs, l)

/-- The name is found once it is interned. -/
lemma metafieldInterning_eq (h : Heap) (v : Value) (event : String) :
    h.metafieldInterning v event =
      ((h.intern (Text.bytes event)).2.metafield v event, (h.intern (Text.bytes event)).2) := by
  rw [metafieldInterning, metafield, find?_intern]
  dsimp only
  rcases (h.intern (Text.bytes event)).2.metatableOf v with _ | mt <;> rfl

/-- **The handle of a string that is not in use is no key.** -/
lemma NoneDangling.tableGet_string (hd : h.NoneDangling) (hlt : i < Value.payloadLimit)
    (hnew : ¬ h.InUse (.string i)) (mt : ℕ) : h.tableGet mt (.string i) = .nil := by
  rw [tableGet]
  split
  · next t ht =>
    rw [Table.get, Value.normalizeKey_string, Std.HashMap.getD_eq_getD_getElem?]
    rcases hentry : t.entries[Value.string i]? with _ | w
    · rfl
    · exact absurd (hd _ _ _ (.key ht hentry) (Value.object?_string hlt)) hnew
  · rfl

/-! ## Further names -/

/-- One heap has the objects of another one, but for strings. -/
structure SameObjects (h k : Heap) : Prop where
  tables : k.tables = h.tables
  envs : k.envs = h.envs
  userdata : k.userdata = h.userdata

/-- **One heap has further names** if it has the other objects of the first one, and the strings it has in addition are
under handles that were not in use. -/
structure AddsNames (h k : Heap) : Prop extends h.SameObjects k where
  inUse : ∀ i, h.InUse (.string i) → k.InUse (.string i)
  find : ∀ content, k.find? content = h.find? content ∨
    h.find? content = none ∧ ∃ i, k.find? content = some i ∧ i < Value.payloadLimit ∧ ¬ h.InUse (.string i)

namespace SameObjects

lemma userdata? (hk : h.SameObjects k) (i : ℕ) : k.userdata? i = h.userdata? i := by
  rw [Heap.userdata?, hk.userdata, ← Heap.userdata?]

lemma metatableOf (hk : h.SameObjects k) (v : Value) : k.metatableOf v = h.metatableOf v := by
  unfold Heap.metatableOf
  simp only [hk.tables, hk.userdata?]

lemma tableGet (hk : h.SameObjects k) (mt : ℕ) (key : Value) : k.tableGet mt key = h.tableGet mt key := by
  rw [Heap.tableGet, hk.tables, ← Heap.tableGet]

lemma envAbove? (hk : h.SameObjects k) (level e : ℕ) : k.envAbove? level e = h.envAbove? level e := by
  induction level generalizing e with
  | zero => rfl
  | succ level ih =>
    rw [Heap.envAbove?, Heap.envAbove?, hk.envs]
    split
    · exact ih _
    · rfl

/-- What is made or written does not depend on strings. -/
lemma apply (hk : h.SameObjects k) {change : Change} (hc : change ≠ .sweep) :
    (change.apply h).SameObjects (change.apply k) := by
  have hkept : h.SameObjects k := hk
  obtain ⟨htables, henvs, huserdata⟩ := hk
  cases change with
  | sweep => exact absurd rfl hc
  | intern content =>
    refine ⟨?_, ?_, ?_⟩
    · simp only [Change.apply, tables_intern, htables]
    · simp only [Change.apply, envs_intern, henvs]
    · simp only [Change.apply, userdata_intern, huserdata]
  | newTable size => exact ⟨by simp only [Change.apply, newTable, htables], henvs, huserdata⟩
  | newEnv parent => exact ⟨htables, by simp only [Change.apply, newEnv, henvs], huserdata⟩
  | newUserdata payload metatable =>
    exact ⟨htables, henvs, by simp only [Change.apply, newUserdata, huserdata]⟩
  | setEntry table key value => exact ⟨by simp only [Change.apply, htables], henvs, huserdata⟩
  | trace roots => exact ⟨htables, henvs, huserdata⟩
  | envSet e level slot value =>
    rw [Change.apply, Change.apply, envSet, envSet, hkept.envAbove?]
    split
    · exact ⟨htables, by rw [henvs], huserdata⟩
    · exact hkept
  | setMetatable v metatable =>
    rw [Change.apply, Change.apply, setMetatable?, setMetatable?]
    split
    · next i _ =>
      rw [htables]
      rcases h.tables.get? i with _ | t
      · exact hkept
      · exact ⟨rfl, henvs, huserdata⟩
    · next i _ =>
      rw [hkept.userdata?, huserdata]
      rcases h.userdata? i with _ | u
      · exact hkept
      · exact ⟨htables, henvs, rfl⟩
    · exact hkept

end SameObjects

namespace AddsNames

lemma refl (h : Heap) : h.AddsNames h := ⟨⟨rfl, rfl, rfl⟩, fun _ hi => hi, fun _ => .inl rfl⟩

lemma trans (hk : h.AddsNames k) (hl : k.AddsNames l) : h.AddsNames l := by
  refine ⟨⟨hl.tables.trans hk.tables, hl.envs.trans hk.envs, hl.userdata.trans hk.userdata⟩,
    fun i hi => hl.inUse i (hk.inUse i hi), fun content => ?_⟩
  rcases hl.find content with heq | ⟨hnone, i, hsome, hlt, hnew⟩
  · rw [heq]
    exact hk.find content
  · refine .inr ⟨?_, i, hsome, hlt, fun hi => hnew (hk.inUse i hi)⟩
    rcases hk.find content with heq | ⟨hnone', -⟩
    · rw [← heq, hnone]
    · exact hnone'

/-- **Further names change no lookup.** A name that has been there has kept its handle, and the handle of another one
is no key. -/
theorem metafield (hk : h.AddsNames k) (hd : h.NoneDangling) (v : Value) (event : String) :
    k.metafield v event = h.metafield v event := by
  rw [Heap.metafield, Heap.metafield, hk.metatableOf]
  rcases hk.find (Text.bytes event) with heq | ⟨hnone, i, hsome, hlt, hnew⟩
  · rw [heq]
    simp only [hk.tableGet]
  · rw [hnone, hsome]
    rcases h.metatableOf v with _ | mt
    · rfl
    · exact (hk.tableGet mt _).trans (hd.tableGet_string hlt hnew mt)

/-- A name that is interned. -/
lemma intern (hi : h.Interning) (content : List UInt8)
    (hroom : (h.intern content).2.strings.items.size ≤ Value.payloadLimit) : h.AddsNames (h.intern content).2 := by
  refine ⟨⟨h.tables_intern content, h.envs_intern content, h.userdata_intern content⟩, fun i hin => ?_, fun c => ?_⟩
  · obtain ⟨c, hc⟩ := hin.exists_get?
    exact ((hi.holdsString_intern content).2 (.inr ⟨hin, hc⟩)).inUse
  · by_cases hlive : ∃ i, h.HoldsString i content
    · obtain ⟨i, hc⟩ := hlive
      rw [hi.intern_of_holdsString hc]
      exact .inl rfl
    · obtain ⟨hindex, -, -, hinterned⟩ := hi.intern_of_new fun i hc => hlive ⟨i, hc⟩
      rw [find?, find?, hinterned, Std.HashMap.getElem?_insert]
      by_cases heq : content = c
      · subst heq
        have hlt : (h.intern content).1 < Value.payloadLimit :=
          (hi.holdsString_index content).inUse.lt_size.trans_le hroom
        have hnone : h.interned[content]? = none := by
          rw [Option.eq_none_iff_forall_ne_some]
          exact fun i hsome => hlive ⟨i, (hi.interned_iff content i).1 hsome⟩
        exact .inr ⟨hnone, _, if_pos (beq_self_eq_true content), hlt, hindex⟩
      · rw [if_neg (by simpa using heq)]
        exact .inl rfl

end AddsNames

/-! ## Runs of lookups -/

lemma size_le_size_metafieldsInterning (h : Heap) (lookups : List (Value × String)) :
    h.strings.items.size ≤ (h.metafieldsInterning lookups).2.strings.items.size := by
  induction lookups generalizing h with
  | nil => rfl
  | cons lookup lookups ih =>
    rw [metafieldsInterning, metafieldInterning_eq]
    exact (h.size_strings_le_intern _).trans (ih _)

/-- **Whole runs of lookups** give the same if the names are interned, and so does any further one.

**Proof sketch.** Each lookup adds a name to the ones before. So the heap behind it has all names of the first heap,
and maybe further ones, and in such a heap the fields are those of the first one (`AddsNames.metafield`). -/
theorem metafieldsInterning_eq (hi : h.Interning) (hd : h.NoneDangling) (lookups : List (Value × String))
    (hroom : (h.metafieldsInterning lookups).2.strings.items.size ≤ Value.payloadLimit) :
    (h.metafieldsInterning lookups).1 = lookups.map (fun lookup => h.metafield lookup.1 lookup.2) ∧
      ∀ v event, (h.metafieldsInterning lookups).2.metafield v event = h.metafield v event := by
  have hrun : ∀ k : Heap, h.AddsNames k → k.Interning →
      (k.metafieldsInterning lookups).2.strings.items.size ≤ Value.payloadLimit →
      (k.metafieldsInterning lookups).1 = lookups.map (fun lookup => h.metafield lookup.1 lookup.2) ∧
        h.AddsNames (k.metafieldsInterning lookups).2 := by
    clear hroom
    induction lookups with
    | nil => exact fun k hk _ _ => ⟨rfl, hk⟩
    | cons lookup lookups ih =>
      intro k hk hki hroom
      rw [metafieldsInterning, metafieldInterning_eq] at hroom ⊢
      have hstep : k.AddsNames (k.intern (Text.bytes lookup.2)).2 :=
        .intern hki _ ((size_le_size_metafieldsInterning _ _).trans hroom)
      obtain ⟨hanswers, hadds⟩ := ih _ (hk.trans hstep) (hki.intern _) hroom
      refine ⟨?_, hadds⟩
      dsimp only
      rw [hanswers, (hk.trans hstep).metafield hd, List.map_cons]
  obtain ⟨hanswers, hadds⟩ := hrun h (.refl h) hi hroom
  exact ⟨hanswers, hadds.metafield hd⟩

/-! ## Later changes -/

/-- Changes that neither intern a content nor release anything. -/
def Change.KeepsStrings : Change → Prop
  | intern _ | sweep => False
  | newTable _ | newEnv _ | newUserdata .. | setEntry .. | envSet .. | setMetatable .. | trace _ => True

section Changes

variable {change : Change} {changes : List Change}

lemma Change.strings_apply (hc : change.KeepsStrings) (h : Heap) :
    (change.apply h).strings = h.strings ∧ (change.apply h).interned = h.interned := by
  cases change with
  | intern | sweep => exact hc.elim
  | newTable | newEnv | newUserdata | setEntry | trace => exact ⟨rfl, rfl⟩
  | envSet e level slot value => exact h.envSet_strings e level slot value
  | setMetatable v metatable =>
    rw [apply]
    rcases hset : h.setMetatable? v metatable with _ | k
    · exact ⟨rfl, rfl⟩
    · exact setMetatable?_strings hset

lemma AddsNames.apply (hk : h.AddsNames k) (hc : change.KeepsStrings) :
    (change.apply h).AddsNames (change.apply k) := by
  obtain ⟨hstrings, hinterned⟩ := Change.strings_apply hc h
  obtain ⟨hstrings', hinterned'⟩ := Change.strings_apply hc k
  have hinUse : ∀ i, (change.apply h).InUse (.string i) ↔ h.InUse (.string i) := fun i => by
    rw [InUse, InUse, hstrings]
  refine ⟨hk.toSameObjects.apply fun heq => ?_, fun i hi => ?_, fun content => ?_⟩
  · rw [heq] at hc
    exact hc
  · rw [InUse, hstrings']
    exact hk.inUse i ((hinUse i).1 hi)
  · rw [find?, find?, hinterned, hinterned']
    simp only [hinUse]
    exact hk.find content

lemma AddsNames.foldl_apply (hk : h.AddsNames k) (hc : ∀ c ∈ changes, c.KeepsStrings) :
    (changes.foldl Change.apply h).AddsNames (changes.foldl Change.apply k) := by
  induction changes generalizing h k with
  | nil => exact hk
  | cons c changes ih =>
    obtain ⟨hfirst, hrest⟩ := List.forall_mem_cons.1 hc
    exact ih (hk.apply hfirst) hrest

end Changes

/-- **Lookups with and without interning the name** give the same, in a heap in which contents are interned and no
handle dangles, as long as there is a handle for each string. Interning the name changes no lookup of any name, at once
or later: whatever is made, written and marked in between, also with handles, if none comes to dangle.

**Proof sketch.** The name has been interned already, or it gets a handle that is not in use. As no handle dangles,
this is no key of a table, so reading it gives nil. What is made and written later is the same with the name and
without it, and so are the handles in use, but for the one of the name. -/
theorem metafield_eq_interning (hi : h.Interning) (hd : h.NoneDangling) (event : String)
    (hroom : (h.intern (Text.bytes event)).2.strings.items.size ≤ Value.payloadLimit) :
    (∀ v, h.metafieldInterning v event = (h.metafield v event, (h.intern (Text.bytes event)).2)) ∧
      (∀ v later, (h.intern (Text.bytes event)).2.metafield v later = h.metafield v later) ∧
        ∀ changes : List Change, (∀ c ∈ changes, c.KeepsStrings) →
          (changes.foldl Change.apply h).NoneDangling →
            ∀ v later, (changes.foldl Change.apply (h.intern (Text.bytes event)).2).metafield v later =
              (changes.foldl Change.apply h).metafield v later := by
  have hadds : h.AddsNames (h.intern (Text.bytes event)).2 := .intern hi _ hroom
  refine ⟨fun v => ?_, hadds.metafield hd, fun changes hc hd' => (hadds.foldl_apply hc).metafield hd'⟩
  rw [metafieldInterning_eq, hadds.metafield hd]

/-- A heap in which the first handle of a string is free again. The second one is a name, and a table has it as a key
and is the metatable of the other table. -/
def releasedHeap : Heap where
  strings := ⟨#[[], Text.bytes "__add"], [0]⟩
  tables := ⟨#[Table.empty.set (.string 1) (.function 0), ⟨∅, some 0⟩], []⟩
  envs := .empty
  userdata := .empty
  interned := (∅ : Std.HashMap (List UInt8) ℕ).insert (Text.bytes "__add") 1
  marks := ∅
  allocated := 0
  threshold := minThreshold

section Released

lemma inUse_releasedHeap : releasedHeap.InUse (.string i) ↔ i = 1 := by
  constructor
  · rintro ⟨hlt, hfree⟩
    have hlt' : i < 2 := hlt
    interval_cases i
    · exact absurd hfree (by decide)
    · rfl
  · rintro rfl
    exact ⟨by decide, by decide⟩

lemma interning_releasedHeap : releasedHeap.Interning where
  wellFormed := ⟨by decide, by decide⟩
  interned_iff c i := by
    have hentry : releasedHeap.interned[c]? = if Text.bytes "__add" = c then some 1 else none := by
      rw [releasedHeap, Std.HashMap.getElem?_insert, Std.HashMap.getElem?_empty]
      simp only [beq_iff_eq]
    rw [hentry]
    constructor
    · intro h
      split_ifs at h with hc
      obtain rfl := Option.some.inj h
      subst hc
      exact ⟨inUse_releasedHeap.2 rfl, rfl⟩
    · rintro ⟨hin, hc⟩
      obtain rfl := inUse_releasedHeap.1 hin
      exact if_pos (Option.some.inj hc)
  free i hfree := by
    have hi : i ∈ [0] := (Arena.isFree_iff _).1 hfree
    obtain rfl := List.mem_singleton.1 hi
    rfl

lemma noneDangling_releasedHeap : releasedHeap.NoneDangling := by
  have hfunction : (Value.function 0).object? = none := by decide
  have hstring : (Value.string 1).object? = some (.string 1) := by decide
  have htable : (Value.table 0).object? = some (.table 0) := by decide
  -- one of the tables has one entry, and the other one has the first as its metatable
  have htables : ∀ {i : ℕ} {t : Table}, releasedHeap.tables.get? i = some t →
      t = Table.empty.set (.string 1) (.function 0) ∨ t = ⟨∅, some 0⟩ := by
    intro i t ht
    have hlt : i < 2 := Arena.lt_size_of_get? ht
    interval_cases i
    · exact .inl (Option.some.inj ht).symm
    · exact .inr (Option.some.inj ht).symm
  have hentries : ∀ {i : ℕ} {t : Table} {x w : Value}, releasedHeap.tables.get? i = some t →
      t.entries[x]? = some w → x = .string 1 ∧ w = .function 0 := by
    intro i t x w ht hentry
    rcases htables ht with rfl | rfl
    · rcases Table.getElem?_set hentry with hold | ⟨hx, hw⟩
      · simp [Table.empty] at hold
      · exact ⟨hx.trans (Value.normalizeKey_string 1), hw⟩
    · simp at hentry
  intro o v o' href ho
  cases href with
  | key ht hentry =>
    obtain ⟨rfl, -⟩ := hentries ht hentry
    obtain rfl := Option.some.inj (hstring.symm.trans ho)
    exact inUse_releasedHeap.2 rfl
  | value ht hentry =>
    obtain ⟨-, rfl⟩ := hentries ht hentry
    rw [hfunction] at ho
    cases ho
  | tableMetatable ht hmt =>
    rcases htables ht with rfl | rfl
    · rw [Table.metatable_set] at hmt
      cases hmt
    · obtain rfl := Option.some.inj hmt
      obtain rfl := Option.some.inj (htable.symm.trans ho)
      exact ⟨by decide, by decide⟩
  | slot he hv => exact absurd (Arena.lt_size_of_get? he) (Nat.not_lt_zero _)
  | userdataMetatable hu hmt => exact absurd (Arena.lt_size_of_get? hu) (Nat.not_lt_zero _)

/-- Another name gets the handle that is free. -/
theorem metafield_eq_interning_released :
    releasedHeap.Interning ∧ releasedHeap.NoneDangling ∧
      (releasedHeap.intern (Text.bytes "__sub")).2.strings.items.size ≤ Value.payloadLimit ∧
        (releasedHeap.intern (Text.bytes "__sub")).1 = 0 ∧
          (releasedHeap.metafieldInterning (.table 1) "__sub").1 = .nil ∧
            (releasedHeap.intern (Text.bytes "__sub")).2.metafield (.table 1) "__add" = .function 0 := by
  have hroom : (releasedHeap.intern (Text.bytes "__sub")).2.strings.items.size ≤ Value.payloadLimit :=
    (size_strings_intern_le _ _).trans (by decide)
  have hsub : releasedHeap.interned[Text.bytes "__sub"]? = none := by
    rw [releasedHeap, Std.HashMap.getElem?_insert, if_neg (by decide +kernel), Std.HashMap.getElem?_empty]
  have hadd : releasedHeap.find? (Text.bytes "__add") = some 1 := Std.HashMap.getElem?_insert_self
  have hmetatable : releasedHeap.metatableOf (.table 1) = some 0 := by
    have hobject : (Value.table 1).object? = some (.table 1) := by decide
    rw [metatableOf, hobject]
    rfl
  obtain ⟨hlookup, hlater, -⟩ :=
    metafield_eq_interning interning_releasedHeap noneDangling_releasedHeap "__sub" hroom
  refine ⟨interning_releasedHeap, noneDangling_releasedHeap, hroom, ?_, ?_, ?_⟩
  · rw [intern, hsub]
    rfl
  · rw [hlookup, metafield, find?, hsub, hmetatable]
  · rw [hlater, metafield, hadd, hmetatable]
    dsimp only
    have hread : releasedHeap.tableGet 0 (.string 1) =
        (Table.empty.set (.string 1) (.function 0)).get (.string 1) := rfl
    rw [hread, Table.get_set, if_pos rfl]
    decide

end Released

end ScriptCore.Heap
