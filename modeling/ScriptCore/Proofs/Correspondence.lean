import Mathlib
import ScriptCore.Proofs.HandleSafety

set_option relaxedAutoImplicit false
set_option autoImplicit false

/-!
# Corresponding heaps

Two machines that do the same may give out different indices, since the one may have released
objects that the other one still has. A pairing tells which objects of the one stand for which
objects of the other. Two values correspond if they are the same and refer to no object, or if they
are of one kind and refer to objects that are paired; two objects that are paired have entries that
correspond.

The pairing is one-to-one and covers every object in use of the first heap; the second one may have
more. So what can be read of two heaps is the same up to the pairing, even where the contents of
strings decide: a string that only the second heap has is no key of a table that is paired.

## Main definitions

* `ScriptCore.Pairing`, `ScriptCore.Value.Corresponds` — paired objects, and values.
* `ScriptCore.Heap.EntriesCorrespond`, `ScriptCore.Heap.Corresponds` — entries and heaps.

## Main results

* `ScriptCore.Table.Embeds.getElem?` — entries under corresponding keys.
* `ScriptCore.Heap.Corresponds.metafield` — fields of metatables.
-/

namespace ScriptCore

/-! ## Values -/

/-- Whether an object is a string. -/
def Object.IsString (o : Object) : Prop := ∃ i, o = .string i

/-- Which objects of one machine stand for which objects of another one. -/
abbrev Pairing := Object → Object → Prop

namespace Pairing

/-- The pairing with one more pair. -/
def add (ρ : Pairing) (o o' : Object) : Pairing := fun p p' => ρ p p' ∨ (p = o ∧ p' = o')

/-- The paired tables, by their indices. -/
abbrev Tables (ρ : Pairing) (i j : Nat) : Prop := ρ (.table i) (.table j)

variable {ρ : Pairing} {o o' : Object}

lemma le_add : ∀ p p', ρ p p' → ρ.add o o' p p' := fun _ _ => .inl

lemma add_self : ρ.add o o' o o' := .inr ⟨rfl, rfl⟩

lemma add_of_paired (h : ρ o o') : ρ.add o o' = ρ := by
  funext p p'
  refine propext ⟨?_, .inl⟩
  rintro (hp | ⟨rfl, rfl⟩)
  · exact hp
  · exact h

/-- Another pair keeps a pairing one-to-one if neither of its objects is paired already. -/
lemma biUnique_add (hρ : Relator.BiUnique ρ) (hiff : ∀ p p', ρ p p' → (p = o ↔ p' = o')) :
    Relator.BiUnique (ρ.add o o') := by
  constructor
  · rintro p q p' (hp | ⟨rfl, rfl⟩) (hq | ⟨rfl, hq⟩)
    · exact hρ.1 hp hq
    · exact (hiff _ _ hp).2 hq
    · exact ((hiff _ _ hq).2 rfl).symm
    · rfl
  · rintro p p' q' (hp | ⟨rfl, rfl⟩) (hq | ⟨hq, rfl⟩)
    · exact hρ.2 hp hq
    · exact (hiff _ _ hp).1 hq
    · exact ((hiff _ _ hq).1 rfl).symm
    · rfl

end Pairing

namespace Value

/-- Two values correspond: they are the same and refer to no object, or they are of one kind and
their objects are paired. -/
inductive Corresponds (ρ : Pairing) : Value → Value → Prop
  | plain {v : Value} (h : v.object? = none) : Corresponds ρ v v
  | object {v w : Value} {o o' : Object} (kind : v.kind = w.kind) (hv : v.object? = some o)
    (hw : w.object? = some o') (h : ρ o o') : Corresponds ρ v w

lemma tag_ne_zero_of_object? {v : Value} {o : Object} (h : v.object? = some o) : v.tag ≠ 0 := by
  intro htag
  simp only [object?, htag, stringTag, tableTag, userdataTag, envTag] at h
  cases h

/-- The handle of a value with the given tag. -/
private lemma rel_of_tag {ρ : Pairing} {v w : Value} (h : v.Corresponds ρ w) (tag : Nat)
    (make : Nat → Object) (hmake : ∀ u : Value, u.tag = tag → u.object? = some (make u.payload)) :
    Option.Rel (fun i j => ρ (make i) (make j)) (if v.tag = tag then some v.payload else none)
      (if w.tag = tag then some w.payload else none) := by
  cases h with
  | plain h =>
    have hne : v.tag ≠ tag := fun htag => by
      rw [hmake v htag] at h
      cases h
    rw [if_neg hne]
    exact .none
  | object kind hv hw h =>
    have htag := tag_congr kind
    by_cases hv' : v.tag = tag
    · rw [if_pos hv', if_pos (htag ▸ hv')]
      rw [hmake v hv', Option.some.injEq] at hv
      rw [hmake w (htag ▸ hv'), Option.some.injEq] at hw
      rw [← hv, ← hw] at h
      exact .some h
    · rw [if_neg hv', if_neg (htag ▸ hv')]
      exact .none

namespace Corresponds

variable {ρ ρ' : Pairing} {v w v' w' : Value}

lemma kind_eq (h : v.Corresponds ρ w) : v.kind = w.kind := by
  cases h with
  | plain => rfl
  | object kind => exact kind

lemma tag_eq (h : v.Corresponds ρ w) : v.tag = w.tag := tag_congr h.kind_eq

lemma typeName_eq (h : v.Corresponds ρ w) : v.typeName = w.typeName := by
  unfold typeName
  rw [h.tag_eq]

lemma isNil_eq (h : v.Corresponds ρ w) : v.isNil = w.isNil := by rw [isNil, isNil, h.tag_eq]

lemma isTable_eq (h : v.Corresponds ρ w) : v.isTable = w.isTable := by
  rw [isTable, isTable, h.tag_eq]

lemma isFalsey_eq (h : v.Corresponds ρ w) : v.isFalsey = w.isFalsey := by
  rw [isFalsey, isFalsey, h.tag_eq]

lemma number?_eq (h : v.Corresponds ρ w) : v.number? = w.number? := by
  cases h with
  | plain => rfl
  | object _ hv hw =>
    rw [number?_eq_none (tag_ne_zero_of_object? hv), number?_eq_none (tag_ne_zero_of_object? hw)]

lemma function?_eq (h : v.Corresponds ρ w) : v.function? = w.function? := by
  cases h with
  | plain => rfl
  | object _ hv hw => rw [function?_of_object? hv, function?_of_object? hw]

lemma table? (h : v.Corresponds ρ w) : Option.Rel ρ.Tables v.table? w.table? := by
  have hrel := rel_of_tag h tableTag .table fun u hu => by
    simp [object?, hu, tableTag, stringTag]
  simpa [Value.table?, isTable, Pairing.Tables] using hrel

lemma string? (h : v.Corresponds ρ w) :
    Option.Rel (fun i j => ρ (.string i) (.string j)) v.string? w.string? := by
  have hrel := rel_of_tag h stringTag .string fun u hu => by
    simp [object?, hu]
  simpa [Value.string?, isString] using hrel

lemma env? (h : v.Corresponds ρ w) :
    Option.Rel (fun i j => ρ (.env i) (.env j)) v.env? w.env? := by
  have hrel := rel_of_tag h envTag .env fun u hu => by
    simp [object?, hu, tableTag, stringTag, userdataTag, envTag]
  simpa [Value.env?, isEnv] using hrel

lemma object? (h : v.Corresponds ρ w) : Option.Rel ρ v.object? w.object? := by
  cases h with
  | plain h =>
    rw [h]
    exact .none
  | object _ hv hw h =>
    rw [hv, hw]
    exact .some h

lemma mono (hle : ∀ o o', ρ o o' → ρ' o o') (h : v.Corresponds ρ w) : v.Corresponds ρ' w := by
  cases h with
  | plain h => exact .plain h
  | object kind hv hw h => exact .object kind hv hw (hle _ _ h)

lemma flip (h : v.Corresponds ρ w) : w.Corresponds (flip ρ) v := by
  cases h with
  | plain h => exact .plain h
  | object kind hv hw h => exact .object kind.symm hw hv h

/-- A value corresponds to one value at most. -/
lemma right_unique (hρ : Relator.BiUnique ρ) (h : v.Corresponds ρ w) (h' : v.Corresponds ρ w') :
    w = w' := by
  cases h with
  | plain hv =>
    cases h' with
    | plain => rfl
    | object _ hv' =>
      rw [hv] at hv'
      cases hv'
  | object kind hv hw h =>
    cases h' with
    | plain hv' =>
      rw [hv'] at hv
      cases hv
    | object kind' hv' hw' h' =>
      rw [hv, Option.some.injEq] at hv'
      subst hv'
      have heq := hρ.2 h h'
      exact ext_object (kind.symm.trans kind') hw (heq ▸ hw')

lemma left_unique (hρ : Relator.BiUnique ρ) (h : v.Corresponds ρ w) (h' : v'.Corresponds ρ w) :
    v = v' :=
  right_unique (ρ := Function.swap ρ) ⟨fun _ _ _ h h' => hρ.2 h h', fun _ _ _ h h' => hρ.1 h h'⟩
    h.flip h'.flip

/-- Corresponding values stand for corresponding keys. -/
lemma normalizeKey (h : v.Corresponds ρ w) : v.normalizeKey.Corresponds ρ w.normalizeKey := by
  cases h with
  | plain h =>
    rcases v.normalizeKey_eq with heq | hplain
    · rw [heq]
      exact .plain h
    · exact .plain hplain.object
  | object kind hv hw h =>
    have hnone : ∀ {u : Value} {o : Object}, u.object? = some o → u.normalizeKey = u := by
      intro u o hu
      rw [Value.normalizeKey, number?_eq_none (tag_ne_zero_of_object? hu)]
    rw [hnone hv, hnone hw]
    exact .object kind hv hw h

lemma isKey_eq (h : v.Corresponds ρ w) : State.isKey v = State.isKey w := by
  rw [State.isKey, State.isKey, h.isNil_eq, h.number?_eq]

lemma of_isPlain (h : v.IsPlain) : v.Corresponds ρ v := .plain h.object

lemma nil : Value.nil.Corresponds ρ Value.nil := of_isPlain isPlain_nil

end Corresponds

end Value

/-! ## Entries -/

section Entries

variable {ρ ρ' : Pairing}

lemma optionRel_imp {α β : Type} {r r' : α → β → Prop} (h : ∀ a b, r a b → r' a b)
    {x : Option α} {y : Option β} (hxy : Option.Rel r x y) : Option.Rel r' x y := by
  cases hxy with
  | none => exact .none
  | some hr => exact .some (h _ _ hr)

lemma optionRel_getD {α β : Type} {r : α → β → Prop} {x : Option α} {y : Option β}
    (hxy : Option.Rel r x y) {a : α} {b : β} (h : r a b) : r (x.getD a) (y.getD b) := by
  cases hxy with
  | none => exact h
  | some hr => exact hr

/-- Corresponding lists have corresponding values at each place. -/
lemma optionRel_getElem? {α β : Type} {r : α → β → Prop} {xs : List α} {ys : List β}
    (h : List.Forall₂ r xs ys) (i : Nat) : Option.Rel r xs[i]? ys[i]? := by
  induction h generalizing i with
  | nil => exact .none
  | cons hxy _ ih =>
    cases i with
    | zero => exact .some hxy
    | succ i => exact ih i

/-- Arrays with corresponding values at each place have the same size. -/
lemma size_eq_of_optionRel {α β : Type} {r : α → β → Prop} {xs : Array α} {ys : Array β}
    (h : ∀ i : Nat, Option.Rel r xs[i]? ys[i]?) : xs.size = ys.size := by
  rcases Nat.lt_trichotomy xs.size ys.size with hlt | heq | hlt
  · have hrel := h xs.size
    rw [Array.getElem?_eq_none le_rfl, Array.getElem?_eq_getElem hlt] at hrel
    cases hrel
  · exact heq
  · have hrel := h ys.size
    rw [Array.getElem?_eq_getElem hlt, Array.getElem?_eq_none le_rfl] at hrel
    cases hrel

/-- Corresponding lists have corresponding values at each place, nil behind their ends. -/
lemma Value.Corresponds.getD {vs ws : List Value} (hvs : List.Forall₂ (Value.Corresponds ρ) vs ws)
    (i : Nat) : (vs.getD i .nil).Corresponds ρ (ws.getD i .nil) := by
  rw [List.getD_eq_getElem?_getD, List.getD_eq_getElem?_getD]
  exact optionRel_getD (optionRel_getElem? hvs i) .nil

/-- The entries of one table correspond to entries of another one. -/
def Table.Embeds (ρ : Pairing) (t u : Table) : Prop :=
  ∀ k v : Value, t.entries[k]? = some v →
    ∃ k' v' : Value, u.entries[k']? = some v' ∧ k.Corresponds ρ k' ∧ v.Corresponds ρ v'

/-- Two tables correspond: their entries do, either way, and their metatables are paired. -/
structure Table.Corresponds (ρ : Pairing) (t u : Table) : Prop where
  embeds : t.Embeds ρ u
  embeds' : u.Embeds (flip ρ) t
  metatable : Option.Rel ρ.Tables t.metatable u.metatable

/-- Two environments correspond: their slots do. -/
def Env.Corresponds (ρ : Pairing) (e f : Env) : Prop := ∀ i, (e.get i).Corresponds ρ (f.get i)

/-- Two objects of the host correspond: they have the same payload, and their metatables are
paired. -/
structure Userdata.Corresponds (ρ : Pairing) (u w : Userdata) : Prop where
  metatable : Option.Rel ρ.Tables u.metatable w.metatable
  payload : u.payload = w.payload

/-- The entries of two objects correspond, which are of one kind. Strings correspond if their
contents are the same. -/
inductive Heap.EntriesCorrespond (ρ : Pairing) (h k : Heap) : Object → Object → Prop
  | string {i j : Nat} {c : List UInt8} (hi : h.strings.get? i = some c)
    (hj : k.strings.get? j = some c) : EntriesCorrespond ρ h k (.string i) (.string j)
  | table {i j : Nat} {t u : Table} (hi : h.tables.get? i = some t) (hj : k.tables.get? j = some u)
    (htu : t.Corresponds ρ u) : EntriesCorrespond ρ h k (.table i) (.table j)
  | env {i j : Nat} {e f : Env} (hi : h.envs.get? i = some e) (hj : k.envs.get? j = some f)
    (hef : e.Corresponds ρ f) : EntriesCorrespond ρ h k (.env i) (.env j)
  | userdata {i j : Nat} {u w : Userdata} (hi : h.userdata.get? i = some (some u))
    (hj : k.userdata.get? j = some (some w)) (huw : u.Corresponds ρ w) :
    EntriesCorrespond ρ h k (.userdata i) (.userdata j)

namespace Table

variable {t u : Table}

lemma Embeds.mono (hle : ∀ o o', ρ o o' → ρ' o o') (h : t.Embeds ρ u) : t.Embeds ρ' u := by
  intro k v hv
  obtain ⟨k', v', hv', hk, hvv⟩ := h k v hv
  exact ⟨k', v', hv', hk.mono hle, hvv.mono hle⟩

/-- **Entries under corresponding keys** correspond: a key has one partner at most, so the entry in
the other table is under the other key. -/
theorem Embeds.getElem? (hρ : Relator.BiUnique ρ) (h : t.Embeds ρ u) (h' : u.Embeds (flip ρ) t)
    {k k' : Value} (hk : k.Corresponds ρ k') :
    Option.Rel (Value.Corresponds ρ) t.entries[k]? u.entries[k']? := by
  rcases hv : t.entries[k]? with _ | v
  · rcases hv' : u.entries[k']? with _ | v'
    · exact .none
    · obtain ⟨l, v, hl, hkl, -⟩ := h' k' v' hv'
      rw [hk.left_unique hρ hkl.flip, hl] at hv
      cases hv
  · obtain ⟨l, v', hl, hkl, hvv⟩ := h k v hv
    rw [hk.right_unique hρ hkl, hl]
    exact .some hvv

/-- A table with an entry set has that entry, and the others it had. -/
lemma Embeds.set (hρ : Relator.BiUnique ρ) (h : t.Embeds ρ u) {key key' value value' : Value}
    (hk : key.Corresponds ρ key') (hv : value.Corresponds ρ value') :
    (t.set key value).Embeds ρ (u.set key' value') := by
  have hkey := hk.normalizeKey
  have hother : ∀ {k k' : Value}, k.Corresponds ρ k' → key.normalizeKey ≠ k →
      key'.normalizeKey ≠ k' := by
    intro k k' hkk hne heq
    rw [← heq] at hkk
    exact hne (hkey.left_unique hρ hkk)
  intro k v hkv
  unfold Table.set at hkv ⊢
  rw [hv.isNil_eq] at hkv
  split at hkv
  · next hnil =>
    simp only [Std.HashMap.getElem?_erase, beq_iff_eq] at hkv
    split at hkv
    · cases hkv
    · next hne =>
      obtain ⟨k', v', hv', hkk, hvv⟩ := h k v hkv
      refine ⟨k', v', ?_, hkk, hvv⟩
      rw [if_pos hnil]
      simp only [Std.HashMap.getElem?_erase, beq_iff_eq, if_neg (hother hkk hne), hv']
  · next hnil =>
    simp only [Std.HashMap.getElem?_insert, beq_iff_eq] at hkv
    rw [if_neg hnil]
    split at hkv
    · next heq =>
      rw [Option.some.injEq] at hkv
      subst heq hkv
      exact ⟨key'.normalizeKey, value', by simp, hkey, hv⟩
    · next hne =>
      obtain ⟨k', v', hv', hkk, hvv⟩ := h k v hkv
      refine ⟨k', v', ?_, hkk, hvv⟩
      simp only [Std.HashMap.getElem?_insert, beq_iff_eq, if_neg (hother hkk hne), hv']

namespace Corresponds

lemma mono (hle : ∀ o o', ρ o o' → ρ' o o') (h : t.Corresponds ρ u) : t.Corresponds ρ' u :=
  ⟨h.embeds.mono hle, h.embeds'.mono fun _ _ => hle _ _, optionRel_imp (fun _ _ => hle _ _) h.metatable⟩

lemma set (hρ : Relator.BiUnique ρ) (h : t.Corresponds ρ u) {key key' value value' : Value}
    (hk : key.Corresponds ρ key') (hv : value.Corresponds ρ value') :
    (t.set key value).Corresponds ρ (u.set key' value') := by
  have hflip : Relator.BiUnique (flip ρ) :=
    ⟨fun _ _ _ h h' => hρ.2 h h', fun _ _ _ h h' => hρ.1 h h'⟩
  refine ⟨h.embeds.set hρ hk hv, h.embeds'.set hflip hk.flip hv.flip, ?_⟩
  rw [metatable_set, metatable_set]
  exact h.metatable

/-- The values of corresponding keys correspond. -/
lemma get (hρ : Relator.BiUnique ρ) (h : t.Corresponds ρ u) {k k' : Value}
    (hk : k.Corresponds ρ k') : (t.get k).Corresponds ρ (u.get k') := by
  rw [Table.get, Table.get, Std.HashMap.getD_eq_getD_getElem?, Std.HashMap.getD_eq_getD_getElem?]
  exact optionRel_getD (h.embeds.getElem? hρ h.embeds' hk.normalizeKey) .nil

/-- Nothing is under a key without a partner. -/
lemma get_of_unpaired (h : t.Corresponds ρ u) {k' : Value}
    (hk : ∀ k : Value, ¬ k.Corresponds ρ k'.normalizeKey) : u.get k' = .nil := by
  rw [Table.get, Std.HashMap.getD_eq_getD_getElem?]
  rcases hv : u.entries[k'.normalizeKey]? with _ | v'
  · rfl
  · obtain ⟨k, -, -, hkk, -⟩ := h.embeds' _ _ hv
    exact absurd hkk.flip (hk k)

lemma empty : Table.empty.Corresponds ρ Table.empty :=
  ⟨fun k v hv => by simp [Table.empty] at hv, fun k v hv => by simp [Table.empty] at hv, .none⟩

end Corresponds

end Table

namespace Env

variable {e f : Env}

lemma Corresponds.set (h : e.Corresponds ρ f) {v w : Value} (hv : v.Corresponds ρ w) (i : Nat) :
    (e.set i v).Corresponds ρ (f.set i w) := by
  intro j
  rw [get_set, get_set]
  split
  · exact hv
  · exact h j

lemma Corresponds.mono (hle : ∀ o o', ρ o o' → ρ' o o') (h : e.Corresponds ρ f) :
    e.Corresponds ρ' f := fun i => (h i).mono hle

end Env

end Entries

/-! ## Heaps -/

namespace Heap

/-- The bookkeeping of a heap is in order, nothing is marked, and there is a handle for every
entry. -/
structure Regular (h : Heap) : Prop where
  wellFormed : h.FreeWellFormed
  interning : h.Interning
  unmarked : ∀ o, o ∉ h.marks
  fits : h.Fits

/-- **Two heaps correspond** under a pairing of objects in use: it is one-to-one, covers all objects
of the first heap, and the entries of paired objects correspond. -/
structure Corresponds (ρ : Pairing) (h k : Heap) : Prop where
  regular : h.Regular
  regular' : k.Regular
  biUnique : Relator.BiUnique ρ
  total : ∀ o, h.InUse o → ∃ o', ρ o o'
  inUse : ∀ o o', ρ o o' → h.InUse o ∧ k.InUse o'
  entries : ∀ o o', ρ o o' → h.EntriesCorrespond ρ k o o'

variable {ρ : Pairing} {h k : Heap}

lemma Regular.index_lt (hr : h.Regular) {o : Object} (ho : h.InUse o) :
    o.index < Value.payloadLimit := hr.fits o (inUse_iff.1 ho).1

namespace Corresponds

variable (hc : h.Corresponds ρ k)

include hc

lemma strings {i j : Nat} (hij : ρ (.string i) (.string j)) :
    ∃ c, h.strings.get? i = some c ∧ k.strings.get? j = some c := by
  cases hc.entries _ _ hij with
  | string hi hj => exact ⟨_, hi, hj⟩

lemma tables {i j : Nat} (hij : ρ (.table i) (.table j)) :
    ∃ t u, h.tables.get? i = some t ∧ k.tables.get? j = some u ∧ t.Corresponds ρ u := by
  cases hc.entries _ _ hij with
  | table hi hj htu => exact ⟨_, _, hi, hj, htu⟩

lemma envs {i j : Nat} (hij : ρ (.env i) (.env j)) :
    ∃ e f, h.envs.get? i = some e ∧ k.envs.get? j = some f ∧ e.Corresponds ρ f := by
  cases hc.entries _ _ hij with
  | env hi hj hef => exact ⟨_, _, hi, hj, hef⟩

lemma userdata {i j : Nat} (hij : ρ (.userdata i) (.userdata j)) :
    ∃ u w, h.userdata.get? i = some (some u) ∧ k.userdata.get? j = some (some w) ∧
      u.Corresponds ρ w := by
  cases hc.entries _ _ hij with
  | userdata hi hj huw => exact ⟨_, _, hi, hj, huw⟩

/-- The values made for paired objects correspond. -/
lemma value {o o' : Object} (ho : ρ o o') : o.value.Corresponds ρ o'.value := by
  obtain ⟨hin, hin'⟩ := hc.inUse o o' ho
  refine .object ?_ (Object.object?_value (hc.regular.index_lt hin))
    (Object.object?_value (hc.regular'.index_lt hin')) ho
  have hbox : ∀ {tag payload : Nat}, tag < 0x10000 →
      (Value.box tag payload).kind = Value.boxBase / Value.payloadLimit + tag := by
    intro tag payload htag
    rw [Value.kind, Value.toNat_box htag]
    have hlt := Nat.mod_lt payload (show 0 < Value.payloadLimit by decide)
    simp only [Value.boxBase, Value.payloadLimit] at hlt ⊢
    omega
  cases hc.entries o o' ho <;> exact (hbox (by decide)).trans (hbox (by decide)).symm

/-- A content that is interned in the first heap is so in the second one. -/
lemma find?_of_find? {c : List UInt8} {i : Nat} (hi : h.find? c = some i) :
    ∃ j, k.find? c = some j ∧ ρ (.string i) (.string j) := by
  have hholds := (hc.regular.interning.interned_iff c i).1 hi
  obtain ⟨o', ho'⟩ := hc.total _ hholds.inUse
  have hin := (hc.inUse _ _ ho').2
  cases hc.entries _ _ ho' with
  | string hi' hj' =>
    rw [hholds.content, Option.some.injEq] at hi'
    subst hi'
    exact ⟨_, (hc.regular'.interning.interned_iff _ _).2 ⟨hin, hj'⟩, ho'⟩

/-- A string that only the second heap has is not paired. -/
lemma unpaired {c : List UInt8} {j : Nat} (hnone : h.find? c = none) (hsome : k.find? c = some j)
    (o : Object) : ¬ ρ o (.string j) := by
  intro ho
  have hin := (hc.inUse _ _ ho).1
  have hholds := (hc.regular'.interning.interned_iff c j).1 hsome
  cases hc.entries _ _ ho with
  | string hi hj =>
    rw [hholds.content, Option.some.injEq] at hj
    subst hj
    have hfound := (hc.regular.interning.interned_iff _ _).2 ⟨hin, hi⟩
    rw [find?, hfound] at hnone
    cases hnone

/-! ### Reading -/

lemma tableGet {i j : Nat} (hij : ρ (.table i) (.table j)) {key key' : Value}
    (hkey : key.Corresponds ρ key') : (h.tableGet i key).Corresponds ρ (k.tableGet j key') := by
  obtain ⟨t, u, hi, hj, htu⟩ := hc.tables hij
  rw [Heap.tableGet, Heap.tableGet, hi, hj]
  exact htu.get hc.biUnique hkey

/-- The environments above two that are paired are paired. -/
lemma envAbove? {i j : Nat} (hij : ρ (.env i) (.env j)) (level : Nat) :
    Option.Rel (fun i j => ρ (.env i) (.env j)) (h.envAbove? level i) (k.envAbove? level j) := by
  induction level generalizing i j with
  | zero => exact .some hij
  | succ level ih =>
    obtain ⟨e, f, hi, hj, hef⟩ := hc.envs hij
    have hparent := (hef 0).env?
    rw [Heap.envAbove?, Heap.envAbove?, hi, hj, Option.bind_some, Option.bind_some,
      Env.parent?_eq, Env.parent?_eq]
    revert hparent
    rcases (e.get 0).env? with _ | p <;> rcases (f.get 0).env? with _ | q <;> intro hparent <;>
      cases hparent
    · exact .none
    · next hpq => exact ih hpq

lemma envGet {i j : Nat} (hij : ρ (.env i) (.env j)) (level slot : Nat) :
    (h.envGet i level slot).Corresponds ρ (k.envGet j level slot) := by
  have habove := hc.envAbove? hij level
  unfold Heap.envGet
  revert habove
  rcases h.envAbove? level i with _ | p <;> rcases k.envAbove? level j with _ | q <;>
    intro habove <;> cases habove
  · exact .nil
  · next hpq =>
    obtain ⟨e, f, hp, hq, hef⟩ := hc.envs hpq
    rw [Option.bind_some, Option.bind_some, hp, hq]
    exact hef slot

lemma metatableOf {v w : Value} (hv : v.Corresponds ρ w) :
    Option.Rel ρ.Tables (h.metatableOf v) (k.metatableOf w) := by
  have hobject := hv.object?
  unfold Heap.metatableOf
  revert hobject
  rcases v.object? with _ | o <;> rcases w.object? with _ | o' <;> intro hobject <;> cases hobject
  · exact .none
  · next ho =>
    cases hc.entries _ _ ho with
    | string | env => exact .none
    | table hi hj htu =>
      simp only [hi, hj, Option.bind_some]
      exact htu.metatable
    | userdata hi hj huw =>
      simp only [userdata?, hi, hj, Option.join_some, Option.bind_some]
      exact huw.metatable

/-- Nothing is under a string that only the second heap has. -/
lemma tableGet_of_unpaired {i j : Nat} (hij : ρ (.table i) (.table j)) {c : List UInt8} {l : Nat}
    (hnone : h.find? c = none) (hsome : k.find? c = some l) :
    k.tableGet j (.string l) = .nil := by
  obtain ⟨t, u, -, hj, htu⟩ := hc.tables hij
  have hholds := (hc.regular'.interning.interned_iff c l).1 hsome
  have hobject : (Value.string l).object? = some (.string l) :=
    Value.object?_string (hc.regular'.index_lt hholds.inUse)
  rw [Heap.tableGet, hj]
  refine htu.get_of_unpaired fun key hkey => ?_
  rw [Value.normalizeKey_string] at hkey
  cases hkey with
  | plain hplain =>
    rw [hobject] at hplain
    cases hplain
  | object _ _ hl ho =>
    rw [hobject, Option.some.injEq] at hl
    subst hl
    exact hc.unpaired hnone hsome _ ho

/-- **Fields of metatables** correspond. If only the second heap has the name interned, its string
has no partner, and so it is no key of the metatable there. -/
theorem metafield {v w : Value} (hv : v.Corresponds ρ w) (event : String) :
    (h.metafield v event).Corresponds ρ (k.metafield w event) := by
  have hmetatable := hc.metatableOf hv
  unfold Heap.metafield
  revert hmetatable
  rcases h.metatableOf v with _ | mt <;> rcases k.metatableOf w with _ | mt' <;>
    intro hmetatable <;> cases hmetatable
  · exact .nil
  next hmt =>
  rcases hkey : h.find? (Text.bytes event) with _ | i
  · rcases hkey' : k.find? (Text.bytes event) with _ | j
    · exact .nil
    · simp only [hc.tableGet_of_unpaired hmt hkey hkey']
      exact .nil
  · obtain ⟨j, hj, hij⟩ := hc.find?_of_find? hkey
    rw [hj]
    exact hc.tableGet hmt (hc.value hij)

/-- Corresponding values are strings of the same content, or both are none. -/
lemma content_eq {v w : Value} (hv : v.Corresponds ρ w) :
    v.string?.bind h.strings.get? = w.string?.bind k.strings.get? := by
  have hstring := hv.string?
  revert hstring
  rcases v.string? with _ | i <;> rcases w.string? with _ | j <;> intro hstring <;> cases hstring
  · rfl
  · next hij =>
    obtain ⟨c, hi, hj⟩ := hc.strings hij
    rw [Option.bind_some, Option.bind_some, hi, hj]

end Corresponds

end Heap

end ScriptCore
