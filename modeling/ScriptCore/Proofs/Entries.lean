import Mathlib
import ScriptCore.Proofs.Interning

set_option relaxedAutoImplicit false
set_option autoImplicit false

/-!
# Changes of one entry

Apart from releasing objects, whatever is done to a heap makes or changes the entry of one object.
All other objects in use keep their entries, and with these what they refer to.

## Main definitions

* `ScriptCore.Heap.ChangesOnly` — changes of one object.
* `ScriptCore.Heap.Addressable` — heaps whose objects have handles.
* `ScriptCore.Heap.HasMetatable` — the metatables of objects.

## Main results

* `ScriptCore.Heap.refers_iff_of_sameEntry` — what an object refers to is a matter of its entry.
* `ScriptCore.Heap.changesOnly_newTable`, `ScriptCore.Heap.changesOnly_intern`,
  `ScriptCore.Heap.changesOnly_setEntry` and others — what each operation changes.
-/

namespace ScriptCore

/-! ## Entries of an arena -/

namespace Arena

variable {α : Type}

/-- An arena has no more entries than there are handles, unless all of its indices are in use. -/
def Addressable (a : Arena α) : Prop := a.free ≠ [] → a.items.size ≤ Value.payloadLimit

/-- An index in use stays so when it is cut to the width of a handle. -/
lemma InUse.mod {a : Arena α} {i : Nat} (hi : a.InUse i) (ha : a.Addressable) :
    a.InUse (i % Value.payloadLimit) := by
  rcases Nat.lt_or_ge i Value.payloadLimit with hlt | hge
  · rwa [Nat.mod_eq_of_lt hlt]
  · have hsize := hi.lt_size
    have hfree : a.free = [] := by
      by_contra hfree
      exact absurd (ha hfree) (by omega)
    exact ⟨(Nat.mod_le _ _).trans_lt hsize, by simp [isFree, hfree]⟩

/-- One arena differs from another one at most in the given indices, which may have come into
use. -/
structure ChangesOnly (a a' : Arena α) (changed : Nat → Prop) : Prop where
  inUse : ∀ j, a.InUse j → a'.InUse j
  new : ∀ j, a'.InUse j → a.InUse j ∨ changed j
  free : ∀ j, a'.isFree j = true → a.isFree j = true
  same : ∀ j, a.InUse j → ¬ changed j → a'.get? j = a.get? j
  wellFormed : a'.WellFormed
  /-- New entries are made only if no index is free. -/
  size : a'.free ≠ [] → a.free ≠ [] ∧ a'.items.size = a.items.size

variable {a : Arena α} {changed : Nat → Prop}

lemma ChangesOnly.addressable {a' : Arena α} (h : a.ChangesOnly a' changed)
    (ha : a.Addressable) : a'.Addressable := by
  intro hfree
  obtain ⟨hbefore, hsize⟩ := h.size hfree
  exact hsize ▸ ha hbefore

lemma WellFormed.changesOnly_refl (h : a.WellFormed) : a.ChangesOnly a changed :=
  ⟨fun _ hj => hj, fun _ hj => .inl hj, fun _ hj => hj, fun _ _ _ => rfl, h,
    fun hfree => ⟨hfree, rfl⟩⟩

lemma WellFormed.changesOnly_alloc (h : a.WellFormed) (x : α) (hi : changed (a.alloc x).1) :
    a.ChangesOnly (a.alloc x).2 changed where
  inUse _ hj := (h.inUse_alloc_iff x).2 (.inr hj)
  new j hj := by
    rcases (h.inUse_alloc_iff x).1 hj with rfl | hj
    · exact .inr hi
    · exact .inl hj
  free _ hj := (h.isFree_of_isFree_alloc x hj).2
  same _ hj _ := h.get?_alloc_of_inUse x hj
  wellFormed := h.alloc x
  size hfree := by
    unfold Arena.alloc at hfree ⊢
    split at hfree
    · next hlist => exact ⟨by simp [hlist], by simp⟩
    · next hlist => exact absurd hlist hfree

lemma WellFormed.changesOnly_modify (h : a.WellFormed) {i : Nat} (f : α → α) (hi : changed i) :
    a.ChangesOnly (a.modify i f) changed where
  inUse j hj := (inUse_modify_iff a i j f).2 hj
  new j hj := .inl ((inUse_modify_iff a i j f).1 hj)
  free _ hj := hj
  same j _ hj := by
    have hne : i ≠ j := fun heq => hj (heq ▸ hi)
    rw [get?_modify, if_neg hne]
  wellFormed := h.modify i f
  size hfree := ⟨hfree, by simp [Arena.modify]⟩

end Arena

/-! ## Entries of tables and environments -/

/-- An entry of a table behind a write is an old one or the one written. -/
lemma Table.getElem?_set {t : Table} {key value k w : Value}
    (hw : (t.set key value).entries[k]? = some w) :
    t.entries[k]? = some w ∨ (k = key.normalizeKey ∧ w = value) := by
  unfold Table.set at hw
  split at hw
  · rw [Std.HashMap.getElem?_erase] at hw
    split at hw
    · cases hw
    · exact .inl hw
  · rw [Std.HashMap.getElem?_insert] at hw
    split at hw
    · next heq => exact .inr ⟨(beq_iff_eq.1 heq).symm, (Option.some.inj hw).symm⟩
    · exact .inl hw

@[simp]
lemma Table.metatable_set (t : Table) (key value : Value) :
    (t.set key value).metatable = t.metatable := by
  unfold Table.set
  split <;> rfl

/-- A slot of an environment behind a write is an old one, padding, or the one written. -/
lemma Env.mem_slots_set {e : Env} {slot : Nat} {value v : Value}
    (hv : v ∈ (e.set slot value).slots) : v ∈ e.slots ∨ v = .nil ∨ v = value := by
  unfold Env.set at hv
  rcases Array.mem_or_eq_of_mem_setIfInBounds hv with hv | rfl
  · rcases Array.mem_append.1 hv with hv | hv
    · exact .inl hv
    · exact .inr (.inl (Array.eq_of_mem_replicate hv))
  · exact .inr (.inr rfl)

namespace Heap

variable {h h' : Heap}

/-! ## Objects with the same entry -/

lemma SameEntry.symm {o : Object} (hs : h.SameEntry h' o) : h'.SameEntry h o := by
  cases o <;> exact Eq.symm hs

/-- What an object refers to depends on its entry only. -/
lemma Refers.of_sameEntry {o : Object} {v : Value} (hs : h.SameEntry h' o)
    (href : h'.Refers o v) : h.Refers o v := by
  cases href with
  | key ht hentry => exact .key (hs.symm.trans ht) hentry
  | value ht hentry => exact .value (hs.symm.trans ht) hentry
  | tableMetatable ht hmt => exact .tableMetatable (hs.symm.trans ht) hmt
  | slot he hv => exact .slot (hs.symm.trans he) hv
  | userdataMetatable hu hmt => exact .userdataMetatable (hs.symm.trans hu) hmt

/-- **What an object refers to** is a matter of its entry. -/
theorem refers_iff_of_sameEntry {o : Object} {v : Value} (hs : h.SameEntry h' o) :
    h'.Refers o v ↔ h.Refers o v :=
  ⟨.of_sameEntry hs, .of_sameEntry hs.symm⟩

/-- Whether an object has the metatable with the given handle. -/
inductive HasMetatable (h : Heap) : Object → Nat → Prop
  | table {i mt : Nat} {t : Table} (ht : h.tables.get? i = some t) (hmt : t.metatable = some mt) :
    HasMetatable h (.table i) mt
  | userdata {i mt : Nat} {u : Userdata} (hu : h.userdata.get? i = some (some u))
    (hmt : u.metatable = some mt) : HasMetatable h (.userdata i) mt

lemma HasMetatable.of_sameEntry {o : Object} {mt : Nat} (hs : h.SameEntry h' o)
    (hmt : h'.HasMetatable o mt) : h.HasMetatable o mt := by
  cases hmt with
  | table ht hmt => exact .table (hs.symm.trans ht) hmt
  | userdata hu hmt => exact .userdata (hs.symm.trans hu) hmt

/-- The metatable of a value is that of its object. -/
lemma hasMetatable_of_metatableOf {v : Value} {mt : Nat} (hmt : h.metatableOf v = some mt) :
    ∃ o, v.object? = some o ∧ h.HasMetatable o mt := by
  unfold metatableOf at hmt
  split at hmt
  · next i ho =>
    obtain ⟨t, ht, hmt⟩ := Option.bind_eq_some_iff.1 hmt
    exact ⟨_, ho, .table ht hmt⟩
  · next i ho =>
    obtain ⟨u, hu, hmt⟩ := Option.bind_eq_some_iff.1 hmt
    exact ⟨_, ho, .userdata (Option.join_eq_some_iff.1 hu) hmt⟩
  · cases hmt

/-! ## Changes of one object -/

/-- Every arena is addressable. -/
structure Addressable (h : Heap) : Prop where
  strings : h.strings.Addressable
  tables : h.tables.Addressable
  envs : h.envs.Addressable
  userdata : h.userdata.Addressable

/-- One heap differs from another one in one object at most, which may have come into use; free
indices stay well formed, and contents interned. -/
structure ChangesOnly (h h' : Heap) (o : Object) : Prop where
  inUse : ∀ o', h.InUse o' → h'.InUse o'
  new : ∀ o', h'.InUse o' → h.InUse o' ∨ o' = o
  free : ∀ o', h'.isFree o' = true → h.isFree o' = true
  same : ∀ o', h.InUse o' → o' ≠ o → h.SameEntry h' o'
  wellFormed : h'.FreeWellFormed
  addressable : h.Addressable → h'.Addressable
  interning : h'.Interning
  marks : h'.marks = h.marks

lemma ChangesOnly.refl (hf : h.FreeWellFormed) (hi : h.Interning) (o : Object) :
    h.ChangesOnly h o where
  inUse _ ho := ho
  new _ ho := .inl ho
  free _ ho := ho
  same o' _ _ := by cases o' <;> rfl
  wellFormed := hf
  addressable ha := ha
  interning := hi
  marks := rfl

/-- A change of one object is one of the indices of that object in the arenas. -/
lemma ChangesOnly.of_arenas {o : Object}
    (hs : h.strings.ChangesOnly h'.strings fun i => .string i = o)
    (ht : h.tables.ChangesOnly h'.tables fun i => .table i = o)
    (hu : h.userdata.ChangesOnly h'.userdata fun i => .userdata i = o)
    (he : h.envs.ChangesOnly h'.envs fun i => .env i = o)
    (hi : h'.Interning) (hmarks : h'.marks = h.marks) : h.ChangesOnly h' o where
  inUse o := by
    cases o with
    | string i => exact hs.inUse i
    | table i => exact ht.inUse i
    | userdata i => exact hu.inUse i
    | env i => exact he.inUse i
  new o := by
    cases o with
    | string i => exact hs.new i
    | table i => exact ht.new i
    | userdata i => exact hu.new i
    | env i => exact he.new i
  free o := by
    cases o with
    | string i => exact hs.free i
    | table i => exact ht.free i
    | userdata i => exact hu.free i
    | env i => exact he.free i
  same o := by
    cases o with
    | string i => exact hs.same i
    | table i => exact ht.same i
    | userdata i => exact hu.same i
    | env i => exact he.same i
  wellFormed := ⟨hs.wellFormed, ht.wellFormed, he.wellFormed, hu.wellFormed⟩
  addressable ha :=
    ⟨hs.addressable ha.strings, ht.addressable ha.tables, he.addressable ha.envs,
      hu.addressable ha.userdata⟩
  interning := hi
  marks := hmarks

/-! ## What each operation changes -/

section Operations

variable (hf : h.FreeWellFormed) (hi : h.Interning)

include hf hi

/-- A string that is interned comes into use, if it is not so already. -/
lemma changesOnly_intern (c : List UInt8) :
    h.ChangesOnly (h.intern c).2 (.string (h.intern c).1) := by
  by_cases hlive : ∃ j, h.HoldsString j c
  · obtain ⟨j, hj⟩ := hlive
    rw [hi.intern_of_holdsString hj]
    exact .refl hf hi _
  · have hnone : h.interned[c]? = none := by
      rw [← Option.not_isSome_iff_eq_none, Option.isSome_iff_exists]
      rintro ⟨j, hj⟩
      exact hlive ⟨j, (hi.interned_iff c j).1 hj⟩
    have hinterning := hi.intern c
    rw [intern, hnone] at hinterning ⊢
    exact .of_arenas (hf.strings.changesOnly_alloc c rfl) hf.tables.changesOnly_refl
      hf.userdata.changesOnly_refl hf.envs.changesOnly_refl hinterning rfl

lemma changesOnly_newTable (size : Nat) :
    h.ChangesOnly (h.newTable size).2 (.table (h.newTable size).1) :=
  .of_arenas hf.strings.changesOnly_refl (hf.tables.changesOnly_alloc _ rfl)
    hf.userdata.changesOnly_refl hf.envs.changesOnly_refl (hi.of_eq rfl rfl) rfl

lemma changesOnly_newEnv (parent : Option Nat) :
    h.ChangesOnly (h.newEnv parent).2 (.env (h.newEnv parent).1) :=
  .of_arenas hf.strings.changesOnly_refl hf.tables.changesOnly_refl
    hf.userdata.changesOnly_refl (hf.envs.changesOnly_alloc _ rfl) (hi.of_eq rfl rfl) rfl

lemma changesOnly_newUserdata (payload : Nat) (metatable : Option Nat) :
    h.ChangesOnly (h.newUserdata payload metatable).2
      (.userdata (h.newUserdata payload metatable).1) :=
  .of_arenas hf.strings.changesOnly_refl hf.tables.changesOnly_refl
    (hf.userdata.changesOnly_alloc _ rfl) hf.envs.changesOnly_refl (hi.of_eq rfl rfl) rfl

lemma changesOnly_modifyTable (i : Nat) (f : Table → Table) :
    h.ChangesOnly { h with tables := h.tables.modify i f } (.table i) :=
  .of_arenas hf.strings.changesOnly_refl (hf.tables.changesOnly_modify f rfl)
    hf.userdata.changesOnly_refl hf.envs.changesOnly_refl (hi.of_eq rfl rfl) rfl

lemma changesOnly_modifyEnv (i : Nat) (f : Env → Env) :
    h.ChangesOnly { h with envs := h.envs.modify i f } (.env i) :=
  .of_arenas hf.strings.changesOnly_refl hf.tables.changesOnly_refl
    hf.userdata.changesOnly_refl (hf.envs.changesOnly_modify f rfl) (hi.of_eq rfl rfl) rfl

lemma changesOnly_modifyUserdata (i : Nat) (f : Option Userdata → Option Userdata) :
    h.ChangesOnly { h with userdata := h.userdata.modify i f } (.userdata i) :=
  .of_arenas hf.strings.changesOnly_refl hf.tables.changesOnly_refl
    (hf.userdata.changesOnly_modify f rfl) hf.envs.changesOnly_refl (hi.of_eq rfl rfl) rfl

end Operations

/-! ## New objects -/

section New

variable (hf : h.FreeWellFormed)

/-- The string made for a content is in use and has the content. -/
lemma Interning.holdsString_index (hi : h.Interning) (c : List UInt8) :
    (h.intern c).2.HoldsString (h.intern c).1 c :=
  (hi.holdsString_intern c).2 (.inl ⟨rfl, rfl⟩)

/-- Interning makes one string at most. -/
lemma size_strings_intern_le (h : Heap) (c : List UInt8) :
    (h.intern c).2.strings.items.size ≤ h.strings.items.size + 1 := by
  unfold intern
  split
  · exact Nat.le_succ _
  · exact h.strings.size_alloc_le c

/-- It takes no string away. -/
lemma size_strings_le_intern (h : Heap) (c : List UInt8) :
    h.strings.items.size ≤ (h.intern c).2.strings.items.size := by
  unfold intern
  split
  · exact le_rfl
  · exact h.strings.size_le_size_alloc c

/-- The handle of a string that is interned, if there is room for one more. -/
lemma index_intern_lt (hi : h.Interning) (c : List UInt8)
    (hroom : h.strings.items.size < Value.payloadLimit) : (h.intern c).1 < Value.payloadLimit := by
  have hlt : (h.intern c).1 < (h.intern c).2.strings.items.size := (hi.holdsString_index c).inUse.lt_size
  have hle := h.size_strings_intern_le c
  omega

include hf

lemma inUse_newTable (size : Nat) : (h.newTable size).2.InUse (.table (h.newTable size).1) :=
  (hf.tables.inUse_alloc_iff .empty).2 (.inl rfl)

lemma get?_newTable (size : Nat) :
    (h.newTable size).2.tables.get? (h.newTable size).1 = some .empty :=
  hf.tables.get?_alloc .empty

lemma inUse_newEnv (parent : Option Nat) : (h.newEnv parent).2.InUse (.env (h.newEnv parent).1) :=
  (hf.envs.inUse_alloc_iff (.new parent)).2 (.inl rfl)

lemma get?_newEnv (parent : Option Nat) :
    (h.newEnv parent).2.envs.get? (h.newEnv parent).1 = some (.new parent) :=
  hf.envs.get?_alloc (.new parent)

lemma inUse_newUserdata (payload : Nat) (metatable : Option Nat) :
    (h.newUserdata payload metatable).2.InUse
      (.userdata (h.newUserdata payload metatable).1) :=
  (hf.userdata.inUse_alloc_iff (some ⟨metatable, payload⟩)).2 (.inl rfl)

lemma get?_newUserdata (payload : Nat) (metatable : Option Nat) :
    (h.newUserdata payload metatable).2.userdata.get? (h.newUserdata payload metatable).1 =
      some (some ⟨metatable, payload⟩) :=
  hf.userdata.get?_alloc (some ⟨metatable, payload⟩)

end New

end Heap

end ScriptCore
