import ScriptCore.Proofs.SafeActions

set_option relaxedAutoImplicit false
set_option autoImplicit false

/-!
# Tables that are sealed off

A table is sealed off if neither the host starts from it nor another table in use holds it. What is done with
the globals, the registry and the tables found from there does not come across it: registering a library
changes other tables only, and makes new ones.

## Main definitions

* `ScriptCore.Heap.Seals`, `ScriptCore.State.Sealed` — a table is sealed off.
* `ScriptCore.Heap.Adds`, `ScriptCore.State.Adds` — strings and tables are added only.
* `ScriptCore.State.Spares` — actions that keep a table sealed off.

## Main results

* `ScriptCore.State.Spares.registerLibrary` — registering a library.
-/

namespace ScriptCore

namespace Value

/-- The handle in the value of a table. -/
lemma table?_table (i : ℕ) : (table i).table? = some (i % payloadLimit) := by
  rw [table?, isTable, table, tag_box (by decide), payload_box (by decide)]
  rfl

/-- A value with an object is not nil. -/
lemma isNil_of_object? {v : Value} {o : Object} (h : v.object? = some o) : v.isNil = false := by
  by_contra hnil
  rw [Bool.not_eq_false, isNil, decide_eq_true_eq] at hnil
  rw [(isPlain_of_tag_lt (hnil ▸ by decide)).object] at h
  cases h

/-- A plain value is no table. -/
lemma IsPlain.table? {v : Value} (h : v.IsPlain) : v.table? = none := by
  cases hi : v.table? with
  | none => rfl
  | some i =>
    have ho := object?_of_table? hi
    rw [h.object] at ho
    cases ho

end Value

namespace Heap

variable {t n k : ℕ} {T : Table} {h h' : Heap}

/-- **The table `t` is sealed off** with the entry `T`: no other table in use holds it as the value of a key.
There are handles for `n` more strings and tables. -/
structure Seals (t : ℕ) (T : Table) (n : ℕ) (h : Heap) : Prop where
  inUse : h.InUse (.table t)
  entry : h.tables.get? t = some T
  apart : ∀ i key, i ≠ t → h.InUse (.table i) → (h.tableGet i key).table? ≠ some t
  strings : h.strings.items.size + n ≤ Value.payloadLimit
  tables : h.tables.items.size + n ≤ Value.payloadLimit

/-- **Strings and tables are added** only: environments, objects of the host and strings in use are as they were,
and nothing is released. -/
structure Adds (h h' : Heap) : Prop where
  envs : h'.envs = h.envs
  userdata : h'.userdata = h.userdata
  strings : ∀ i c, h.HoldsString i c → h'.HoldsString i c
  inUse : ∀ o, h.InUse o → h'.InUse o

lemma Adds.refl (h : Heap) : h.Adds h := ⟨rfl, rfl, fun _ _ h => h, fun _ h => h⟩

lemma Adds.trans {h'' : Heap} (hh : h.Adds h') (hh' : h'.Adds h'') : h.Adds h'' :=
  ⟨hh'.envs.trans hh.envs, hh'.userdata.trans hh.userdata, fun i c hic => hh'.strings i c (hh.strings i c hic),
    fun o ho => hh'.inUse o (hh.inUse o ho)⟩

lemma Seals.mono (hs : h.Seals t T n) (hk : k ≤ n) : h.Seals t T k :=
  ⟨hs.inUse, hs.entry, hs.apart, by have := hs.strings; omega, by have := hs.tables; omega⟩

section Steps

variable (hf : h.FreeWellFormed) (hi : h.Interning)

include hf hi

lemma adds_intern (c : List UInt8) : h.Adds (h.intern c).2 := by
  refine ⟨?_, ?_, fun i d hid => (hi.holdsString_intern c).2 (.inr hid), (changesOnly_intern hf hi c).inUse⟩ <;>
    · unfold intern
      split <;> rfl

lemma Seals.intern (hs : h.Seals t T (n + 1)) (c : List UInt8) : (h.intern c).2.Seals t T n := by
  have htables := h.tables_intern c
  have hsize := h.size_strings_intern_le c
  obtain ⟨hin, hentry, hapart, hstrings, hroom⟩ := hs
  refine ⟨(h.adds_intern hf hi c).inUse _ hin, by rw [htables]; exact hentry, fun i key hne hi' => ?_, by omega,
    by rw [htables]; omega⟩
  rw [InUse, htables] at hi'
  rw [tableGet, htables]
  exact hapart i key hne hi'

omit hi in
/-- A new table is another one. -/
lemma Seals.newTable_ne (hs : h.Seals t T n) (size : ℕ) : (h.newTable size).1 ≠ t :=
  fun heq => (hf.tables.alloc_index .empty).1 (heq ▸ hs.inUse)

lemma Seals.newTable (hs : h.Seals t T (n + 1)) (size : ℕ) : (h.newTable size).2.Seals t T n := by
  have hne := hs.newTable_ne hf size
  have hc := changesOnly_newTable hf hi size
  have hsize : (h.newTable size).2.tables.items.size ≤ h.tables.items.size + 1 := h.tables.size_alloc_le .empty
  obtain ⟨hin, hentry, hapart, hstrings, hroom⟩ := hs
  refine ⟨hc.inUse _ hin, ?_, fun i key hit hi' => ?_, ?_, by omega⟩
  · exact (hc.same _ hin fun heq => hne (Object.table.inj heq).symm).trans hentry
  · by_cases hnew : i = (h.newTable size).1
    · have hempty : (h.newTable size).2.tableGet i key = .nil := by
        rw [tableGet, hnew, get?_newTable hf size]
        exact Std.HashMap.getD_empty
      rw [hempty, Value.isPlain_nil.table?]
      nofun
    · have hold := (hc.new _ hi').resolve_right fun heq => hnew (Object.table.inj heq)
      have hsame : (h.newTable size).2.tables.get? i = h.tables.get? i :=
        hc.same _ hold fun heq => hnew (Object.table.inj heq)
      rw [tableGet, hsame]
      exact hapart i key hit hold
  · change h.strings.items.size + n ≤ Value.payloadLimit
    omega

/-- A write to another table, of a value that is another one. -/
lemma Seals.setEntry (hs : h.Seals t T n) {i : ℕ} (hne : i ≠ t) (key : Value) {value : Value}
    (hv : value.table? ≠ some t) : Seals t T n { h with tables := h.tables.modify i (·.set key value) } := by
  have hc := changesOnly_modifyTable hf hi i (·.set key value)
  obtain ⟨hin, hentry, hapart, hstrings, hroom⟩ := hs
  refine ⟨hc.inUse _ hin, ?_, fun j key' hj hj' => ?_, hstrings, ?_⟩
  · exact (hc.same _ hin fun heq => hne (Object.table.inj heq).symm).trans hentry
  · have hold := hapart j key' hj ((Arena.inUse_modify_iff h.tables i j _).1 hj')
    rw [tableGet] at hold
    rw [tableGet, Arena.get?_modify]
    cases hget : h.tables.get? j with
    | none =>
      rw [hget] at hold
      rw [Option.map_none, ite_self]
      exact hold
    | some table =>
      rw [hget] at hold
      by_cases hij : i = j
      · rw [if_pos hij, Option.map_some]
        dsimp only
        rw [Table.get_set]
        split
        · split
          · rw [Value.isPlain_nil.table?]
            nofun
          · exact hv
        · exact hold
      · rw [if_neg hij]
        exact hold
  · rwa [Arena.size_modify]

end Steps

end Heap

namespace State

variable {α β : Type} {t n k : ℕ} {T : Table} {s u : State}

/-- **The table `t` is sealed off** in a state: the host does not start from it either. -/
structure Sealed (t : ℕ) (T : Table) (n : ℕ) (s : State) : Prop where
  sound : s.Sound
  heap : s.heap.Seals t T n
  globals : (Value.table s.globals).table? ≠ some t
  registry : (Value.table s.registry).table? ≠ some t

/-- A live value that is not the table `t`. -/
structure Outside (t : ℕ) (v : Value) (s : State) : Prop where
  live : s.Live v
  ne : v.table? ≠ some t

/-- Strings and tables are added only, and no function. -/
structure Adds (s u : State) : Prop where
  natives : u.natives = s.natives
  heap : s.heap.Adds u.heap

lemma Adds.refl (s : State) : s.Adds s := ⟨rfl, .refl _⟩

lemma Adds.trans {v : State} (h : s.Adds u) (h' : u.Adds v) : s.Adds v :=
  ⟨h'.natives.trans h.natives, h.heap.trans h'.heap⟩

lemma Adds.extends (h : s.Adds u) : s.Extends u := ⟨h.heap.inUse, h.natives ▸ le_rfl⟩

lemma Outside.mono {v : Value} (h : Outside t v s) (hsu : s.Adds u) : Outside t v u :=
  ⟨h.live.mono hsu.extends, h.ne⟩

/-- The value of a string is live. -/
lemma Sound.live_string (hs : s.Sound) {i : ℕ} {c : List UInt8} (h : s.heap.HoldsString i c) :
    s.Live (.string i) :=
  hs.heap.live_value h.inUse

namespace Sealed

lemma mono (hs : Sealed t T n s) (hk : k ≤ n) : Sealed t T k s :=
  ⟨hs.sound, hs.heap.mono hk, hs.globals, hs.registry⟩

/-- What is found in a table outside is outside. -/
lemma outside_rawGet (hs : Sealed t T n s) {table : Value} (h : Outside t table s) (key : Value) :
    Outside t (s.rawGet table key) s := by
  refine ⟨hs.sound.live_rawGet h.live key, ?_⟩
  rw [rawGet]
  cases hi : table.table? with
  | some i => exact hs.heap.apart i key (fun heq => h.ne (heq ▸ hi)) (h.live.object _ (Value.object?_of_table? hi))
  | none => exact fun hnil => Option.some_ne_none t (hnil.symm.trans Value.isPlain_nil.table?)

lemma outside_globals (hs : Sealed t T n s) : Outside t (.table s.globals) s :=
  ⟨hs.sound.root _ .globals, hs.globals⟩

lemma outside_registry (hs : Sealed t T n s) : Outside t (.table s.registry) s :=
  ⟨hs.sound.root _ .registry, hs.registry⟩

end Sealed

/-- **An action keeps the table sealed off** when it succeeds: it adds strings and tables only, and its result
is as `post` says. -/
def Spares (t : ℕ) (T : Table) (n : ℕ) (x : Action α) (s : State) (post : α → State → Prop) : Prop :=
  ∀ a u, x s = (.ok a, u) → Sealed t T n u ∧ s.Adds u ∧ post a u

namespace Spares

variable {x : Action α} {post : α → State → Prop}

lemma pure {a : α} (hs : Sealed t T n s) (ha : post a s) : Spares t T n (pure a) s post := by
  intro b u h
  obtain ⟨hok, rfl⟩ := Prod.mk.inj h
  cases hok
  exact ⟨hs, .refl s, ha⟩

lemma throw (e : RuntimeError) : Spares t T n (throw e : Action α) s post := by
  intro a u h
  cases (Prod.mk.inj h).1

lemma bind {f : α → Action β} {post' : β → State → Prop} (hx : Spares t T n x s post)
    (hf : ∀ a u, Sealed t T n u → s.Adds u → post a u → Spares t T k (f a) u post') :
    Spares t T k (x >>= f) s post' := by
  intro b v h
  rw [bind_apply] at h
  rcases hxs : x s with ⟨e | a, u⟩ <;> rw [hxs] at h
  · cases (Prod.mk.inj h).1
  · obtain ⟨hu, hsu, ha⟩ := hx a u hxs
    obtain ⟨hv, huv, hb⟩ := hf a u hu hsu ha b v h
    exact ⟨hv, hsu.trans huv, hb⟩

/-- What is done on the state may depend on it. -/
lemma get_bind {f : State → Action α} (hf : Spares t T n (f s) s post) : Spares t T n (get >>= f) s post :=
  hf

/-- An action on the heap. -/
lemma onHeap {f : Heap → Except RuntimeError α × Heap} {safe : α → State → Prop} (hs : Sealed t T n s)
    (hsafe : SafeAt (onHeap f) s safe) (hf : ∀ a h, f s.heap = (.ok a, h) →
      h.Seals t T k ∧ s.heap.Adds h ∧ (safe a { s with heap := h } → post a { s with heap := h })) :
    Spares t T k (onHeap f) s post := by
  intro a u h
  have hsound := hsafe.sound
  have hresult := hsafe.result a (by rw [h])
  rw [h] at hsound hresult
  obtain ⟨hok, rfl⟩ := Prod.mk.inj h
  obtain ⟨hseals, hadds, hpost⟩ := hf a _ (Prod.ext hok rfl)
  exact ⟨⟨hsound, hseals, hs.globals, hs.registry⟩, ⟨rfl, hadds⟩, hpost hresult⟩

lemma push {v : Value} (hs : Sealed t T n s) (hv : s.Live v) :
    Spares t T n (push v) s fun _ _ => True := by
  intro a u h
  have hsound := (safeAt_push hs.sound hv).sound
  rw [h] at hsound
  rw [push_apply] at h
  split at h
  · cases (Prod.mk.inj h).1
  · obtain ⟨-, rfl⟩ := Prod.mk.inj h
    exact ⟨⟨hsound, hs.heap, hs.globals, hs.registry⟩, ⟨rfl, .refl _⟩, trivial⟩

/-- A string is made, or found, and tables stay as they are. -/
lemma internBytes (hs : Sealed t T (n + 1) s) (c : List UInt8) : Spares t T n (internBytes c) s
    fun v u => ∃ i, v = .string i ∧ u.heap.HoldsString i c ∧ u.heap.tables = s.heap.tables := by
  have horderly := hs.sound.heap.orderly
  have hsafe := safeAt_internBytes hs.sound c
  rw [internBytes_eq] at hsafe ⊢
  refine onHeap hs hsafe fun v h heq => ?_
  obtain ⟨hok, rfl⟩ := Prod.mk.inj heq
  cases hok
  exact ⟨hs.heap.intern horderly.wellFormed horderly.interning c,
    Heap.adds_intern horderly.wellFormed horderly.interning c,
    fun _ => ⟨_, rfl, horderly.interning.holdsString_index c, Heap.tables_intern _ c⟩⟩

/-- A new table is outside. -/
lemma newTable (hs : Sealed t T (n + 1) s) (size : ℕ) : Spares t T n (newTable size) s (Outside t) := by
  have hwf := hs.sound.heap.orderly.wellFormed
  have hi := hs.sound.heap.orderly.interning
  have hsafe := safeAt_newTable hs.sound size
  rw [newTable_eq] at hsafe ⊢
  refine onHeap hs hsafe fun v h heq => ?_
  obtain ⟨hok, rfl⟩ := Prod.mk.inj heq
  cases hok
  have hseals := hs.heap.newTable hwf hi size
  have hlt : (s.heap.newTable size).1 < (s.heap.newTable size).2.tables.items.size :=
    (hwf.tables.alloc_index .empty).2
  have hroom := hseals.tables
  refine ⟨hseals, ⟨rfl, rfl, fun i c hic => ⟨hic.inUse, hic.content⟩,
    (Heap.changesOnly_newTable hwf hi size).inUse⟩, fun hlive => ⟨hlive, ?_⟩⟩
  rw [Value.table?_table, Nat.mod_eq_of_lt (by omega)]
  exact fun heq => hs.heap.newTable_ne hwf size (Option.some.inj heq)

/-- A value outside is written to a table outside, and is read there then. -/
lemma rawSet (hs : Sealed t T n s) {table key value : Value} (ht : Outside t table s) (hk : s.Live key)
    (hv : Outside t value s) : Spares t T n (rawSet table key value) s fun _ u => ∀ key',
      u.rawGet table key' = if key.normalizeKey = key'.normalizeKey then (if value.isNil then .nil else value)
        else s.rawGet table key' := by
  have hwf := hs.sound.heap.orderly.wellFormed
  have hi := hs.sound.heap.orderly.interning
  have hsafe := safeAt_rawSet hs.sound ht.live hk hv.live
  rw [rawSet_eq] at hsafe ⊢
  refine onHeap hs hsafe fun a h heq => ?_
  split at heq
  · cases (Prod.mk.inj heq).1
  split at heq
  · next i hit =>
    split at heq
    · next hlt =>
      obtain ⟨-, rfl⟩ := Prod.mk.inj heq
      refine ⟨hs.heap.setEntry hwf hi (fun h => ht.ne (h ▸ hit)) key hv.ne,
        ⟨rfl, rfl, fun i c hic => ⟨hic.inUse, hic.content⟩, (Heap.changesOnly_modifyTable hwf hi i _).inUse⟩,
        fun _ key' => ?_⟩
      obtain ⟨entry, hentry⟩ : ∃ entry, s.heap.tables.get? i = some entry := ⟨_, Array.getElem?_eq_getElem hlt⟩
      simp only [rawGet, hit, Heap.tableGet, Arena.get?_modify, if_pos, hentry, Option.map_some]
      exact entry.get_set key key' value
    · cases (Prod.mk.inj heq).1
  · cases (Prod.mk.inj heq).1

/-! ## Libraries -/

lemma loadedTable (hs : Sealed t T (n + 3) s) : Spares t T n loadedTable s (Outside t) := by
  have hregistry : Spares t T (n + 2) (registryGet loadedKey) s (Outside t) := by
    refine (internBytes hs _).bind fun key u hu _ _ => .get_bind (.pure hu ?_)
    exact hu.outside_rawGet hu.outside_registry key
  refine hregistry.bind fun loaded u hu _ hloaded => ?_
  split
  · exact .pure (hu.mono (by omega)) hloaded
  · refine (newTable hu 16).bind fun table v hv _ htable => ?_
    refine (internBytes hv _).bind ?_
    rintro _ w hw hvw ⟨i, rfl, hi, -⟩
    refine .get_bind ((rawSet hw hw.outside_registry (hw.sound.live_string hi) (htable.mono hvw)).bind ?_)
    exact fun _ z hz hwz _ => .pure hz ((htable.mono hvw).mono hwz)

/-- **The table of a library is found outside**, where tables that are missing are made. -/
lemma findTable (library : String) (size : ℕ) (parts : List String) {current : Value}
    (hs : Sealed t T (n + 2 * parts.length) s) (hcurrent : Outside t current s) :
    Spares t T n (findTable library size parts current) s (Outside t) := by
  induction parts generalizing s current with
  | nil => exact .pure hs hcurrent
  | cons part rest ih =>
    rw [List.length_cons, Nat.mul_succ, ← Nat.add_assoc] at hs
    refine (internBytes hs _).bind ?_
    rintro _ u hu hsu ⟨i, rfl, hi, -⟩
    have hcurrent := hcurrent.mono hsu
    refine .get_bind ?_
    dsimp only
    split
    · refine (newTable hu _).bind fun table v hv huv htable => ?_
      refine (rawSet hv (hcurrent.mono huv) ((hu.sound.live_string hi).mono huv.extends) htable).bind ?_
      exact fun _ w hw hvw _ => ih hw (htable.mono hvw)
    · split
      · exact ih (hu.mono (by omega)) (hu.outside_rawGet hcurrent _)
      · exact .throw _

/-- **Registering a library** makes or finds its table outside. -/
theorem registerLibrary (name : String) (size : ℕ) (hs : Sealed t T (n + 2 * (nameParts name).length + 4) s) :
    Spares t T n (registerLibrary name size) s (Outside t) := by
  refine (loadedTable hs).bind fun loaded u hu _ hloaded => ?_
  refine (internBytes hu _).bind ?_
  rintro _ v hv huv ⟨i, rfl, hi, -⟩
  have hloaded := hloaded.mono huv
  refine .get_bind ?_
  dsimp only
  split
  · have hexisting := hv.outside_rawGet hloaded (.string i)
    refine (push hv hexisting.live).bind fun _ w hw hvw _ => ?_
    exact .pure (hw.mono (by omega)) (hexisting.mono hvw)
  · refine .get_bind ((findTable name size (nameParts name) hv hv.outside_globals).bind ?_)
    intro table w hw hvw htable
    refine (rawSet hw (hloaded.mono hvw) ((hv.sound.live_string hi).mono hvw.extends) htable).bind ?_
    refine fun _ x hx hwx _ => (push hx (htable.mono hwx).live).bind fun _ y hy hxy _ => ?_
    exact .pure hy ((htable.mono hwx).mono hxy)

end Spares

end State

end ScriptCore
