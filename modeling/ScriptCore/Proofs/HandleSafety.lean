import Mathlib
import ScriptCore.Proofs.Entries
import ScriptCore.Proofs.Running

set_option relaxedAutoImplicit false
set_option autoImplicit false

/-!
# Handle safety

A value is live if the object it refers to is in use and, for a function, if there is one. A state
is safe if the values it starts from are live, and the values that objects in use refer to. A
released index is given out again, so this is what keeps a handle from meaning another object.

A change of one object keeps a heap safe if what is stored there is live. A collection does since
what is reachable stays in use, and refers to reachable objects only.

## Main definitions

* `ScriptCore.Heap.Live`, `ScriptCore.State.Live` — values that are no dangling handles.
* `ScriptCore.Heap.Orderly` — free indices, contents and marks are in order.
* `ScriptCore.State.HandleSafe`, `ScriptCore.State.Sound` — states without dangling handles.

## Main results

* `ScriptCore.Heap.Sound.changesOnly` — a change of one object.
* `ScriptCore.State.Collected.handleSafe`, `ScriptCore.State.Sound.collect` — a collection.
* `ScriptCore.State.sound_new` — the state of a new machine.
-/

namespace ScriptCore

/-! ## Values without a handle -/

namespace Value

/-- A value that has no handle of an object or of a function. -/
structure IsPlain (v : Value) : Prop where
  object : v.object? = none
  function : v.function? = none

/-- Values with low tags have no handle. -/
lemma isPlain_of_tag_lt {v : Value} (h : v.tag < stringTag) : v.IsPlain := by
  have hne : ∀ t, stringTag ≤ t → v.tag ≠ t := fun t ht heq => by omega
  refine ⟨?_, ?_⟩
  · rw [object?, if_neg (hne _ le_rfl), if_neg (hne _ (by decide)), if_neg (hne _ (by decide)),
      if_neg (hne _ (by decide))]
  · rw [function?, isFunction, decide_eq_false (hne _ (by decide))]
    rfl

lemma isPlain_nil : nil.IsPlain :=
  isPlain_of_tag_lt (by rw [nil, tag_box (by decide)]; decide)

lemma isPlain_bool (b : Bool) : (bool b).IsPlain :=
  isPlain_of_tag_lt (by cases b <;> rw [bool, tag_box (by decide)] <;> decide)

lemma isPlain_number (x : Binary64) : (number x).IsPlain := by
  refine isPlain_of_tag_lt ?_
  rw [tag, if_pos (isNumber_number x)]
  decide

/-- The key a plain value stands for is plain, and that of another one is the value itself. -/
lemma normalizeKey_eq (v : Value) : v.normalizeKey = v ∨ v.normalizeKey.IsPlain := by
  unfold normalizeKey
  split
  · split
    · exact .inr (isPlain_number _)
    · exact .inl rfl
  · exact .inl rfl

/-- A value with an object is no function. -/
lemma function?_of_object? {v : Value} {o : Object} (h : v.object? = some o) :
    v.function? = none := by
  rw [function?, isFunction, if_neg]
  intro hf
  simp only [decide_eq_true_eq] at hf
  simp only [object?, hf, functionTag, stringTag, tableTag, userdataTag, envTag] at h
  cases h

/-- A string is the object of its index. -/
lemma object?_of_string? {v : Value} {i : Nat} (h : v.string? = some i) :
    v.object? = some (.string i) := by
  rw [string?, isString] at h
  split at h
  · next ht =>
    cases h
    exact if_pos (of_decide_eq_true ht)
  · cases h

/-- A table is the object of its index. -/
lemma object?_of_table? {v : Value} {i : Nat} (h : v.table? = some i) :
    v.object? = some (.table i) := by
  rw [table?, isTable] at h
  split at h
  · next ht =>
    cases h
    simp only [decide_eq_true_eq] at ht
    simp [object?, ht, tableTag, stringTag]
  · cases h

lemma object?_of_env? {v : Value} {i : Nat} (h : v.env? = some i) :
    v.object? = some (.env i) := by
  rw [env?, isEnv] at h
  split at h
  · next ht =>
    cases h
    simp only [decide_eq_true_eq] at ht
    simp [object?, ht, tableTag, stringTag, userdataTag, envTag]
  · cases h

end Value

/-! ## Heaps -/

namespace Heap

/-- A value is live if its object is in use, and its function is one of those there are. -/
structure Live (h : Heap) (functions : Nat) (v : Value) : Prop where
  object : ∀ o, v.object? = some o → h.InUse o
  function : ∀ f, v.function? = some f → f < functions

/-- **The bookkeeping of a heap is in order**: free indices are within their arenas and listed once,
contents are interned exactly, nothing is marked, and handles that are kept apart from values are
words as those in values are. -/
structure Orderly (h : Heap) : Prop where
  wellFormed : h.FreeWellFormed
  interning : h.Interning
  unmarked : ∀ o, o ∉ h.marks
  addressable : h.Addressable
  metatable_lt : ∀ o mt, h.InUse o → h.HasMetatable o mt → mt < Value.payloadLimit

/-- An orderly heap in which objects in use refer to live values only. -/
structure Sound (h : Heap) (functions : Nat) : Prop where
  orderly : h.Orderly
  reference : ∀ o v, h.InUse o → h.Refers o v → h.Live functions v

/-- There is a handle for every entry. -/
def Fits (h : Heap) : Prop := ∀ o, h.HasEntry o → o.index < Value.payloadLimit

variable {h h' : Heap} {n : Nat}

lemma Live.mono {v : Value} (hv : h.Live n v) (hin : ∀ o, h.InUse o → h'.InUse o) {n' : Nat}
    (hn : n ≤ n') : h'.Live n' v :=
  ⟨fun o ho => hin o (hv.object o ho), fun f hf => (hv.function f hf).trans_le hn⟩

lemma live_of_isPlain {v : Value} (hv : v.IsPlain) : h.Live n v where
  object o ho := by
    rw [hv.object] at ho
    cases ho
  function f hf := by
    rw [hv.function] at hf
    cases hf

/-- A value is live if its object is in use. -/
lemma live_of_object {v : Value} {o : Object} (hv : v.object? = some o) (ho : h.InUse o) :
    h.Live n v where
  object o' ho' := by
    rw [hv, Option.some.injEq] at ho'
    exact ho' ▸ ho
  function f hf := by
    rw [Value.function?_of_object? hv] at hf
    cases hf

lemma Live.normalizeKey {v : Value} (hv : h.Live n v) : h.Live n v.normalizeKey := by
  rcases v.normalizeKey_eq with heq | hplain
  · rwa [heq]
  · exact live_of_isPlain hplain

/-- **A change of one object keeps a heap sound** if what the object refers to behind it is live, or
was referred to by it before. -/
theorem Sound.changesOnly {o : Object} (hs : h.Sound n) (hc : h.ChangesOnly h' o)
    (href : ∀ v, h'.Refers o v → (h.InUse o ∧ h.Refers o v) ∨ h.Live n v)
    (hmt : ∀ mt, h'.HasMetatable o mt →
      (h.InUse o ∧ h.HasMetatable o mt) ∨ mt < Value.payloadLimit) :
    h'.Sound n where
  orderly :=
    { wellFormed := hc.wellFormed
      interning := hc.interning
      unmarked := hc.marks ▸ hs.orderly.unmarked
      addressable := hc.addressable hs.orderly.addressable
      metatable_lt := fun o' mt ho' hmt' => by
        by_cases heq : o' = o
        · subst heq
          rcases hmt mt hmt' with ⟨hin, hbefore⟩ | hlt
          · exact hs.orderly.metatable_lt _ mt hin hbefore
          · exact hlt
        · have hin := (hc.new o' ho').resolve_right heq
          exact hs.orderly.metatable_lt o' mt hin (hmt'.of_sameEntry (hc.same o' hin heq)) }
  reference o' v ho' hv := by
    have hbefore : (h.InUse o' ∧ h.Refers o' v) ∨ h.Live n v := by
      by_cases heq : o' = o
      · subst heq
        exact href v hv
      · have hin := (hc.new o' ho').resolve_right heq
        exact .inl ⟨hin, hv.of_sameEntry (hc.same o' hin heq)⟩
    rcases hbefore with ⟨hin, hv⟩ | hv
    · exact (hs.reference o' v hin hv).mono hc.inUse le_rfl
    · exact hv.mono hc.inUse le_rfl

/-! ### Operations -/

/-- A heap is sound behind an operation, which releases nothing. -/
structure Grows (n : Nat) (h h' : Heap) : Prop where
  sound : h'.Sound n
  inUse : ∀ o, h.InUse o → h'.InUse o

lemma Sound.grows_refl (hs : h.Sound n) : Grows n h h := ⟨hs, fun _ ho => ho⟩

/-- The value made for an object in use is live. -/
lemma Sound.live_value (hs : h.Sound n) {o : Object} (ho : h.InUse o) : h.Live n o.value := by
  have ha := hs.orderly.addressable
  cases o with
  | string i => exact live_of_object (Value.object?_box (by decide)) (Arena.InUse.mod ho ha.strings)
  | table i => exact live_of_object (Value.object?_box (by decide)) (Arena.InUse.mod ho ha.tables)
  | userdata i =>
    exact live_of_object (Value.object?_box (by decide)) (Arena.InUse.mod ho ha.userdata)
  | env i => exact live_of_object (Value.object?_box (by decide)) (Arena.InUse.mod ho ha.envs)

lemma Sound.intern (hs : h.Sound n) (c : List UInt8) :
    Grows n h (h.intern c).2 ∧ (h.intern c).2.Live n (.string (h.intern c).1) := by
  have hi := hs.orderly.interning
  have hc := changesOnly_intern hs.orderly.wellFormed hi c
  have hsound : (h.intern c).2.Sound n := hs.changesOnly hc nofun nofun
  exact ⟨⟨hsound, hc.inUse⟩, hsound.live_value (hi.holdsString_index c).inUse⟩

lemma Sound.newTable (hs : h.Sound n) (size : Nat) :
    Grows n h (h.newTable size).2 ∧ (h.newTable size).2.Live n (.table (h.newTable size).1) := by
  have hwf := hs.orderly.wellFormed
  have hc := changesOnly_newTable hwf hs.orderly.interning size
  have hentry : ∀ t, (h.newTable size).2.tables.get? (h.newTable size).1 = some t → t = .empty :=
    fun t ht => Option.some.inj (ht.symm.trans (get?_newTable hwf size))
  have hsound : (h.newTable size).2.Sound n := by
    refine hs.changesOnly hc (fun v hv => ?_) fun mt hmt => ?_
    · cases hv with
      | key ht hk | value ht hk =>
        rw [hentry _ ht] at hk
        simp [Table.empty] at hk
      | tableMetatable ht hmt =>
        rw [hentry _ ht] at hmt
        cases hmt
    · cases hmt with
      | table ht hmt =>
        rw [hentry _ ht] at hmt
        cases hmt
  exact ⟨⟨hsound, hc.inUse⟩, hsound.live_value (inUse_newTable hwf size)⟩

/-- The link to the parent is live if the parent is. -/
lemma Sound.newEnv (hs : h.Sound n) {parent : Option Nat}
    (hp : ∀ p, parent = some p → h.Live n (.env p)) :
    Grows n h (h.newEnv parent).2 ∧ (h.newEnv parent).2.Live n (.env (h.newEnv parent).1) := by
  have hwf := hs.orderly.wellFormed
  have hc := changesOnly_newEnv hwf hs.orderly.interning parent
  have hsound : (h.newEnv parent).2.Sound n := by
    refine hs.changesOnly hc (fun v hv => .inr ?_) nofun
    cases hv with
    | slot he hv =>
      rw [get?_newEnv hwf parent, Option.some.injEq] at he
      subst he
      cases parent with
      | none =>
        rw [Array.mem_singleton.1 hv]
        exact live_of_isPlain Value.isPlain_nil
      | some p =>
        rw [Array.mem_singleton.1 hv]
        exact hp p rfl
  exact ⟨⟨hsound, hc.inUse⟩, hsound.live_value (inUse_newEnv hwf parent)⟩

lemma Sound.newUserdata (hs : h.Sound n) (payload : Nat) {metatable : Option Nat}
    (hmt : ∀ mt, metatable = some mt → h.Live n (.table mt) ∧ mt < Value.payloadLimit) :
    Grows n h (h.newUserdata payload metatable).2 ∧ (h.newUserdata payload metatable).2.Live n
      (.userdata (h.newUserdata payload metatable).1) := by
  have hwf := hs.orderly.wellFormed
  have hc := changesOnly_newUserdata hwf hs.orderly.interning payload metatable
  have hentry : ∀ u, (h.newUserdata payload metatable).2.userdata.get?
      (h.newUserdata payload metatable).1 = some (some u) → u.metatable = metatable := by
    intro u hu
    rw [get?_newUserdata hwf, Option.some.injEq, Option.some.injEq] at hu
    rw [← hu]
  have hsound : (h.newUserdata payload metatable).2.Sound n := by
    refine hs.changesOnly hc (fun v hv => .inr ?_) fun mt hv => .inr ?_
    · cases hv with
      | userdataMetatable hu hm => exact (hmt _ ((hentry _ hu).symm.trans hm)).1
    · cases hv with
      | userdata hu hm => exact (hmt _ ((hentry _ hu).symm.trans hm)).2
  exact ⟨⟨hsound, hc.inUse⟩, hsound.live_value (inUse_newUserdata hwf payload metatable)⟩

/-- Setting a key of a table in use to a live value. -/
lemma Sound.setEntry (hs : h.Sound n) {i : Nat} (hi : h.InUse (.table i)) {key value : Value}
    (hk : h.Live n key) (hv : h.Live n value) :
    Grows n h { h with tables := h.tables.modify i (·.set key value) } := by
  have hc := changesOnly_modifyTable hs.orderly.wellFormed hs.orderly.interning i (·.set key value)
  -- behind the write, the entry is that of a table that was there
  have hentry : ∀ t, (h.tables.modify i (·.set key value)).get? i = some t →
      ∃ t', h.tables.get? i = some t' ∧ t = t'.set key value := by
    intro t ht
    rw [Arena.get?_modify, if_pos rfl, Option.map_eq_some_iff] at ht
    obtain ⟨t', ht', heq⟩ := ht
    exact ⟨t', ht', heq.symm⟩
  refine ⟨hs.changesOnly hc (fun v hr => ?_) fun mt hm => ?_, hc.inUse⟩
  · cases hr with
    | key ht hw =>
      obtain ⟨t', ht', rfl⟩ := hentry _ ht
      rcases Table.getElem?_set hw with hw | ⟨rfl, -⟩
      · exact .inl ⟨hi, .key ht' hw⟩
      · exact .inr hk.normalizeKey
    | value ht hw =>
      obtain ⟨t', ht', rfl⟩ := hentry _ ht
      rcases Table.getElem?_set hw with hw | ⟨-, rfl⟩
      · exact .inl ⟨hi, .value ht' hw⟩
      · exact .inr hv
    | tableMetatable ht hm =>
      obtain ⟨t', ht', rfl⟩ := hentry _ ht
      exact .inl ⟨hi, .tableMetatable ht' (by simpa using hm)⟩
  · cases hm with
    | table ht hm =>
      obtain ⟨t', ht', rfl⟩ := hentry _ ht
      exact .inl ⟨hi, .table ht' (by simpa using hm)⟩

/-- The environments above one in use are in use. -/
lemma Sound.inUse_envAbove? (hs : h.Sound n) {level e i : Nat} (he : h.InUse (.env e))
    (hi : h.envAbove? level e = some i) : h.InUse (.env i) := by
  induction level generalizing e with
  | zero => exact Option.some.inj hi ▸ he
  | succ level ih =>
    rw [envAbove?] at hi
    split at hi
    · next p hp =>
      obtain ⟨env, henv, hp⟩ := Option.bind_eq_some_iff.1 hp
      obtain ⟨v, hv, hp⟩ := Option.bind_eq_some_iff.1 hp
      have hlive := hs.reference _ v he (.slot henv (Array.mem_of_getElem? hv))
      exact ih (hlive.object _ (Value.object?_of_env? hp)) hi
    · cases hi

lemma Sound.envSet (hs : h.Sound n) {e : Nat} (he : h.InUse (.env e)) (level slot : Nat)
    {value : Value} (hv : h.Live n value) : Grows n h (h.envSet e level slot value) := by
  unfold Heap.envSet
  split
  · next i hi =>
    have hin := hs.inUse_envAbove? he hi
    have hc := changesOnly_modifyEnv hs.orderly.wellFormed hs.orderly.interning i
      (·.set slot value)
    refine ⟨hs.changesOnly hc (fun v hr => ?_) nofun, hc.inUse⟩
    cases hr with
    | slot henv hw =>
      rw [Arena.get?_modify, if_pos rfl, Option.map_eq_some_iff] at henv
      obtain ⟨env, henv, rfl⟩ := henv
      rcases Env.mem_slots_set hw with hw | rfl | rfl
      · exact .inl ⟨hin, .slot henv hw⟩
      · exact .inr (live_of_isPlain Value.isPlain_nil)
      · exact .inr hv
  · exact hs.grows_refl

/-- Setting the metatable of a live value. -/
lemma Sound.setMetatable (hs : h.Sound n) {v : Value} (hv : h.Live n v) {metatable : Option Nat}
    (hmt : ∀ mt, metatable = some mt → h.Live n (.table mt) ∧ mt < Value.payloadLimit)
    (hset : h.setMetatable? v metatable = some h') : Grows n h h' := by
  unfold Heap.setMetatable? at hset
  split at hset
  · next i ho =>
    obtain ⟨t, ht, rfl⟩ := Option.map_eq_some_iff.1 hset
    have hi := hv.object _ ho
    have hc := changesOnly_modifyTable hs.orderly.wellFormed hs.orderly.interning i
      fun _ => { t with metatable }
    have hentry : ∀ t', (h.tables.modify i fun _ => { t with metatable }).get? i = some t' →
        t' = { t with metatable } := by
      intro t' ht'
      rw [Arena.get?_modify, if_pos rfl, ht] at ht'
      exact (Option.some.inj ht').symm
    rw [Arena.set_eq_modify]
    refine ⟨hs.changesOnly hc (fun w hr => ?_) fun mt hm => .inr ?_, hc.inUse⟩
    · cases hr with
      | key ht' hw =>
        rw [hentry _ ht'] at hw
        exact .inl ⟨hi, .key ht hw⟩
      | value ht' hw =>
        rw [hentry _ ht'] at hw
        exact .inl ⟨hi, .value ht hw⟩
      | tableMetatable ht' hm =>
        rw [hentry _ ht'] at hm
        exact .inr (hmt _ hm).1
    · cases hm with
      | table ht' hm =>
        rw [hentry _ ht'] at hm
        exact (hmt _ hm).2
  · next i ho =>
    obtain ⟨u, hu, rfl⟩ := Option.map_eq_some_iff.1 hset
    have hc := changesOnly_modifyUserdata hs.orderly.wellFormed hs.orderly.interning i
      fun _ => some { u with metatable }
    have hentry : ∀ u', (h.userdata.modify i fun _ => some { u with metatable }).get? i =
        some (some u') → u'.metatable = metatable := by
      intro u' hu'
      rw [Arena.get?_modify, if_pos rfl, Option.map_eq_some_iff] at hu'
      obtain ⟨-, -, heq⟩ := hu'
      rw [← Option.some.inj heq]
    rw [Arena.set_eq_modify]
    refine ⟨hs.changesOnly hc (fun w hr => .inr ?_) fun mt hm => .inr ?_, hc.inUse⟩
    · cases hr with
      | userdataMetatable hu' hm => exact (hmt _ ((hentry _ hu').symm.trans hm)).1
    · cases hm with
      | userdata hu' hm => exact (hmt _ ((hentry _ hu').symm.trans hm)).2
  · cases hset

/-! ### Reading -/

/-- What a table in use holds is live. -/
lemma Sound.live_tableGet (hs : h.Sound n) {i : Nat} (hi : h.InUse (.table i)) (key : Value) :
    h.Live n (h.tableGet i key) := by
  unfold Heap.tableGet
  split
  · next t ht =>
    rw [Table.get, Std.HashMap.getD_eq_getD_getElem?]
    rcases hw : t.entries[key.normalizeKey]? with _ | w
    · exact live_of_isPlain Value.isPlain_nil
    · exact hs.reference _ w hi (.value ht hw)
  · exact live_of_isPlain Value.isPlain_nil

lemma sound_empty : Heap.empty.Sound 0 where
  orderly :=
    { wellFormed := freeWellFormed_empty
      interning := interning_empty
      unmarked := fun _ => Std.HashSet.not_mem_empty
      addressable := by
        have hempty : ∀ {α : Type}, (Arena.empty : Arena α).Addressable :=
          fun hfree => absurd rfl hfree
        exact ⟨hempty, hempty, hempty, hempty⟩
      metatable_lt := fun o _ ho => by cases o <;> exact absurd ho.lt_size (Nat.not_lt_zero _) }
  reference o _ ho := by cases o <;> exact absurd ho.lt_size (Nat.not_lt_zero _)

end Heap

/-! ## States -/

namespace State

/-- A value is live in a state if it is no dangling handle there. -/
def Live (s : State) (v : Value) : Prop := s.heap.Live s.natives.size v

/-- **A state without dangling handles**: what it starts from is live, and so is what objects in use
refer to. -/
structure HandleSafe (s : State) : Prop where
  root : ∀ v, s.IsRoot v → s.Live v
  reference : ∀ o v, s.heap.InUse o → s.heap.Refers o v → s.Live v

/-- A safe state whose bookkeeping is in order. -/
structure Sound (s : State) : Prop where
  heap : s.heap.Sound s.natives.size
  root : ∀ v, s.IsRoot v → s.Live v

/-- Everything live in one state is so in another one: no object has been released. -/
structure Extends (s t : State) : Prop where
  inUse : ∀ o, s.heap.InUse o → t.heap.InUse o
  natives : s.natives.size ≤ t.natives.size

variable {s t u : State}

lemma sound_iff : s.Sound ↔ s.HandleSafe ∧ s.heap.Orderly :=
  ⟨fun hs => ⟨⟨hs.root, hs.heap.reference⟩, hs.heap.orderly⟩,
    fun hs => ⟨⟨hs.2, hs.1.reference⟩, hs.1.root⟩⟩

lemma Extends.refl (s : State) : s.Extends s := ⟨fun _ ho => ho, le_rfl⟩

lemma Extends.trans (hst : s.Extends t) (htu : t.Extends u) : s.Extends u :=
  ⟨fun o ho => htu.inUse o (hst.inUse o ho), hst.natives.trans htu.natives⟩

lemma Live.mono {v : Value} (hv : s.Live v) (h : s.Extends t) : t.Live v :=
  Heap.Live.mono hv h.inUse h.natives

lemma live_of_isPlain {v : Value} (hv : v.IsPlain) : s.Live v := Heap.live_of_isPlain hv

lemma live_nil : s.Live .nil := live_of_isPlain Value.isPlain_nil

/-! ### Reading -/

section Reading

variable (hs : s.Sound)

include hs

lemma Sound.live_rawGet {table : Value} (ht : s.Live table) (key : Value) :
    s.Live (s.rawGet table key) := by
  unfold rawGet
  split
  · next i hi => exact hs.heap.live_tableGet (ht.object _ (Value.object?_of_table? hi)) key
  · exact live_nil

end Reading

/-! ### Collection -/

/-- A collection takes no entry away. -/
lemma Collected.hasEntry_iff (hc : s.Collected t) {o : Object} :
    t.heap.HasEntry o ↔ s.heap.HasEntry o := by
  cases o <;> simp only [Heap.HasEntry, hc.strings.size, hc.tables.size, hc.userdata.size,
    hc.envs.size]

/-- What is in use behind a collection: the reachable ones of the objects in use. -/
lemma Collected.inUse_iff (hc : s.Collected t) {o : Object} :
    t.heap.InUse o ↔ s.heap.InUse o ∧ s.Reaches o := by
  rw [Heap.inUse_iff, Heap.inUse_iff, hc.hasEntry_iff]
  constructor
  · rintro ⟨hin, hfree⟩
    have hbefore : s.heap.isFree o = false := by
      rw [← Bool.not_eq_true] at hfree ⊢
      exact fun h => hfree (hc.free o h)
    refine ⟨⟨hin, hbefore⟩, ?_⟩
    by_contra hr
    rw [(hc.freed o hin hbefore).2 hr] at hfree
    cases hfree
  · rintro ⟨⟨hin, hbefore⟩, hr⟩
    refine ⟨hin, ?_⟩
    rw [← Bool.not_eq_true, hc.freed o hin hbefore]
    exact not_not.2 hr

/-- The roots behind a collection are those before it. -/
lemma Collected.isRoot (hc : s.Collected t) {v : Value} (hv : t.IsRoot v) : s.IsRoot v := by
  cases hv with
  | stack hi =>
    rw [hc.top] at hi
    rw [hc.stack]
    exact .stack hi
  | globals =>
    rw [hc.globals]
    exact .globals
  | registry =>
    rw [hc.registry]
    exact .registry
  | upvalue hn hv => exact .upvalue (hc.natives ▸ hn) hv

/-- Whether the object of a value can be reached, if it has one. -/
def Rooted (s : State) (v : Value) : Prop := ∀ o, v.object? = some o → s.Reaches o

/-- **What is rooted stays live** over a collection. -/
lemma Collected.live (hc : s.Collected t) {v : Value} (hv : s.Live v) (hr : s.Rooted v) :
    t.Live v where
  object o ho := hc.inUse_iff.2 ⟨hv.object o ho, hr o ho⟩
  function f hf := hc.natives ▸ hv.function f hf

/-- The free indices of the arenas stay addressable if all entries have handles. -/
lemma Collected.addressable (hc : s.Collected t) (hfits : s.heap.Fits) : t.heap.Addressable := by
  have hle : ∀ size, (size ≠ 0 → size - 1 < Value.payloadLimit) → size ≤ Value.payloadLimit :=
    fun size h => by
      by_cases hsize : size = 0
      · omega
      · have := h hsize
        omega
  refine ⟨fun _ => ?_, fun _ => ?_, fun _ => ?_, fun _ => ?_⟩
  · rw [hc.strings.size]
    exact hle _ fun h => hfits (.string _) (Nat.sub_one_lt h)
  · rw [hc.tables.size]
    exact hle _ fun h => hfits (.table _) (Nat.sub_one_lt h)
  · rw [hc.envs.size]
    exact hle _ fun h => hfits (.env _) (Nat.sub_one_lt h)
  · rw [hc.userdata.size]
    exact hle _ fun h => hfits (.userdata _) (Nat.sub_one_lt h)

/-- **A collection leaves no dangling handle**: what it keeps refers to what it keeps. -/
theorem Collected.handleSafe (hc : s.Collected t) (hs : s.HandleSafe) : t.HandleSafe where
  root v hv := by
    have hbefore := hc.isRoot hv
    exact hc.live (hs.root v hbefore) fun o ho => .root hbefore ho
  reference o v hin hv := by
    obtain ⟨hin, hr⟩ := hc.inUse_iff.1 hin
    have hbefore := hv.of_sameEntry (hc.kept o hr)
    exact hc.live (hs.reference o v hin hbefore) fun o' ho' => .step hr hbefore ho'

/-- The free indices behind a collection are well-formed. -/
lemma Collected.freeWellFormed (hc : s.Collected t) : t.heap.FreeWellFormed :=
  ⟨hc.strings.wellFormed, hc.tables.wellFormed, hc.envs.wellFormed, hc.userdata.wellFormed⟩

/-- A collection keeps contents interned exactly. -/
lemma interning_collect (hi : s.heap.Interning) : s.collect.heap.Interning :=
  have htrace : (s.heap.trace s.roots).Interning := hi.of_eq rfl rfl
  htrace.sweep.of_eq rfl rfl

/-- A collection keeps the bookkeeping in order, if all entries have handles. -/
lemma orderly_collect (ho : s.heap.Orderly) (hfits : s.heap.Fits) : s.collect.heap.Orderly := by
  have hc : s.Collected s.collect := (s.collect_exact ho.wellFormed ho.unmarked).1
  exact
    { wellFormed := hc.freeWellFormed
      interning := interning_collect ho.interning
      unmarked := hc.marks
      addressable := hc.addressable hfits
      metatable_lt := fun o mt hin hmt => by
        obtain ⟨hin, hr⟩ := hc.inUse_iff.1 hin
        exact ho.metatable_lt o mt hin (hmt.of_sameEntry (hc.kept o hr)) }

/-- **A collection keeps a state sound.** -/
theorem Sound.collect (hs : s.Sound) (hfits : s.heap.Fits) : s.collect.Sound := by
  obtain ⟨hsafe, ho⟩ := sound_iff.1 hs
  have hc : s.Collected s.collect := (s.collect_exact ho.wellFormed ho.unmarked).1
  exact sound_iff.2 ⟨hc.handleSafe hsafe, orderly_collect ho hfits⟩

/-- **A new machine is sound.** -/
theorem sound_new : State.new.Sound := by
  -- globals, registry and the table of libraries are made, and the key of the last
  obtain ⟨hg1, hglobals⟩ := Heap.sound_empty.newTable 64
  obtain ⟨hg2, hregistry⟩ := hg1.sound.newTable 4
  obtain ⟨hg3, hloaded⟩ := hg2.sound.newTable 16
  obtain ⟨hg4, hkey⟩ := hg3.sound.intern (Text.bytes loadedKey)
  have hin := Heap.inUse_newTable hg1.sound.orderly.wellFormed 4
  have hg5 := hg4.sound.setEntry (hg4.inUse _ (hg3.inUse _ hin)) hkey (hloaded.mono hg4.inUse le_rfl)
  refine ⟨hg5.sound, fun v hv => ?_⟩
  cases hv with
  | stack hi => exact absurd hi (Nat.not_lt_zero _)
  | globals =>
    refine hglobals.mono (fun o ho => ?_) le_rfl
    exact hg5.inUse o (hg4.inUse o (hg3.inUse o (hg2.inUse o ho)))
  | registry =>
    exact hregistry.mono (fun o ho => hg5.inUse o (hg4.inUse o (hg3.inUse o ho))) le_rfl
  | upvalue hn hv => exact absurd hn (Array.not_mem_empty _)

end State

end ScriptCore
