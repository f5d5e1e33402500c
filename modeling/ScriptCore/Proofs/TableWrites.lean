import ScriptCore.Proofs.LibraryPaths

set_option relaxedAutoImplicit false
set_option autoImplicit false

/-!
# Tables as finite maps

A table is a finite map from keys to values in which both zeros are one key. What is read behind any writes is the
value of the last successful one at the key, and writes fail for exactly two reasons: the key is nil or a NaN, or what
is written to is no table. A failed write changes nothing, and a successful one changes one table. The keys are told
apart by their bits, but for the two zeros, and this is how numbers are compared.

## Main definitions

* `ScriptCore.Value.SameKey` — keys that are the same but for the sign of zero.
* `ScriptCore.Table.OneEntry` — keys of one entry.
* `ScriptCore.Table.Settled` — tables without nil values and negative zeros as keys.
* `ScriptCore.TableWrite`, `ScriptCore.State.writes` — writes to tables, one after the other.
* `ScriptCore.State.written`, `ScriptCore.lastWrite?` — the successful ones, and the last of them at a key.

## Main results

* `ScriptCore.Value.normalizeKey_eq_iff`, `ScriptCore.Value.rawEqual_iff` — the keys of one entry, and equality.
* `ScriptCore.State.rawGet_writes` — reading behind any writes.
* `ScriptCore.State.writes_map` — tables are finite maps.
-/

namespace ScriptCore

/-! ## Keys -/

namespace Value

variable {v w : Value}

/-- Zero, of either sign. -/
def IsZero (v : Value) : Prop := v.bits = 0 ∨ v.bits = 0x8000000000000000

instance : DecidablePred IsZero := fun _ => inferInstanceAs (Decidable (_ ∨ _))

/-- A number that is a NaN, of any sign and payload. -/
def IsNaN (v : Value) : Prop := ∃ x, v.number? = some x ∧ x.isNaN

/-- **Keys that are the same**: they have the same bits, or both are zeros. -/
def SameKey (v w : Value) : Prop := v.bits = w.bits ∨ v.IsZero ∧ w.IsZero

instance : DecidableRel SameKey := fun _ _ => inferInstanceAs (Decidable (_ ∨ _))

lemma isKey_eq_false_iff : State.isKey v = false ↔ v.isNil ∨ v.IsNaN := by
  rw [State.isKey, IsNaN]
  cases v.number? <;> simp [or_iff_not_imp_left]

/-- The zeros are the patterns whose magnitude is zero. -/
lemma isZero_mk_iff {bits : UInt64} : (Binary64.mk bits).isZero ↔ (⟨bits⟩ : Value).IsZero := by
  have hlt := bits.toNat_lt
  rw [Binary64.isZero, decide_eq_true_eq, Binary64.magnitude, Binary64.signWeight, IsZero,
    ← UInt64.toNat_inj, ← UInt64.toNat_inj]
  change bits.toNat % 0x8000000000000000 = 0 ↔ bits.toNat = 0 ∨ bits.toNat = 0x8000000000000000
  omega

lemma IsZero.isNumber (h : v.IsZero) : v.isNumber := by
  rw [Value.isNumber, decide_eq_true_eq]
  rcases h with h | h <;> rw [h] <;> decide

/-- Both zeros stand for positive zero, and any other value for itself. -/
lemma normalizeKey_eq_ite (v : Value) : v.normalizeKey = if v.IsZero then ⟨0⟩ else v := by
  by_cases hnumber : v.isNumber
  · rw [normalizeKey, number?, if_pos hnumber]
    exact if_congr isZero_mk_iff rfl rfl
  · rw [normalizeKey, number?, if_neg hnumber, if_neg fun hzero => hnumber hzero.isNumber]

/-- **The keys of one entry** are the same, but for the sign of zero. -/
theorem normalizeKey_eq_iff : v.normalizeKey = w.normalizeKey ↔ v.SameKey w := by
  have hbits : v = w ↔ v.bits = w.bits := Value.mk.injEq _ _ ▸ Iff.rfl
  rw [normalizeKey_eq_ite, normalizeKey_eq_ite, SameKey]
  by_cases hv : v.IsZero <;> by_cases hw : w.IsZero
  · simp [hv, hw]
  · rw [if_pos hv, if_neg hw]
    refine ⟨fun h => absurd (h ▸ .inl rfl) hw, ?_⟩
    rintro (h | ⟨-, h⟩)
    · exact absurd (by rwa [IsZero, ← h]) hw
    · exact absurd h hw
  · rw [if_neg hv, if_pos hw]
    refine ⟨fun h => absurd (h ▸ .inl rfl) hv, ?_⟩
    rintro (h | ⟨h, -⟩)
    · exact absurd (by rwa [IsZero, h]) hv
    · exact absurd h hv
  · rw [if_neg hv, if_neg hw, hbits]
    simp [hv]

/-- Two numbers that are no NaNs are equal if they are the same pattern or both zeros. -/
lemma eqv_mk_iff {a b : UInt64} (ha : (Binary64.mk a).isNaN = false) (hb : (Binary64.mk b).isNaN = false) :
    (Binary64.mk a).eqv ⟨b⟩ ↔ (⟨a⟩ : Value).SameKey ⟨b⟩ := by
  have halt := a.toNat_lt
  have hblt := b.toNat_lt
  have hrank (c : UInt64) : (Binary64.mk c).rank =
      if 0x8000000000000000 ≤ c.toNat then -((c.toNat % 0x8000000000000000 : ℕ) : ℤ)
      else (c.toNat % 0x8000000000000000 : ℕ) := by
    rw [Binary64.rank, Binary64.isNegative]
    exact if_congr decide_eq_true_iff rfl rfl
  rw [Binary64.eqv, ha, hb, SameKey, IsZero, IsZero, ← UInt64.toNat_inj, ← UInt64.toNat_inj, ← UInt64.toNat_inj,
    ← UInt64.toNat_inj, ← UInt64.toNat_inj]
  simp only [Bool.not_false, Bool.true_and, beq_iff_eq, hrank]
  change _ ↔ a.toNat = b.toNat ∨
    (a.toNat = 0 ∨ a.toNat = 0x8000000000000000) ∧ (b.toNat = 0 ∨ b.toNat = 0x8000000000000000)
  split_ifs <;> omega

/-- **Values other than NaNs are equal** if they are the same key.

**Proof sketch.** Two numbers are compared by their magnitudes with their signs, which only the zeros share. Other
values are compared by their bits, and no zero is among them. -/
theorem rawEqual_iff (hv : ¬ v.IsNaN) (hw : ¬ w.IsNaN) : v.rawEqual w ↔ v.SameKey w := by
  have hnumber {u : Value} (hu : ¬ u.IsNaN) (h : u.isNumber) : (Binary64.mk u.bits).isNaN = false :=
    Bool.eq_false_iff.2 fun hnan => hu ⟨⟨u.bits⟩, if_pos h, hnan⟩
  -- a number has not the bits of another value, and only numbers are zeros
  have hmixed {u u' : Value} (h : u.isNumber) (h' : ¬ u'.isNumber) : ¬ u.SameKey u' ∧ ¬ u'.SameKey u := by
    refine ⟨?_, ?_⟩
    · rintro (heq | ⟨-, hzero⟩)
      · exact h' (by rwa [isNumber, ← heq])
      · exact h' hzero.isNumber
    · rintro (heq | ⟨hzero, -⟩)
      · exact h' (by rwa [isNumber, heq])
      · exact h' hzero.isNumber
  by_cases hvn : v.isNumber <;> by_cases hwn : w.isNumber
  · rw [rawEqual, number?, number?, if_pos hvn, if_pos hwn]
    exact eqv_mk_iff (hnumber hv hvn) (hnumber hw hwn)
  · rw [rawEqual, number?, number?, if_pos hvn, if_neg hwn]
    exact iff_of_false Bool.false_ne_true (hmixed hvn hwn).1
  · rw [rawEqual, number?, number?, if_neg hvn, if_pos hwn]
    exact iff_of_false Bool.false_ne_true (hmixed hwn hvn).2
  · rw [rawEqual, number?, number?, if_neg hvn, if_neg hwn, decide_eq_true_eq]
    refine ⟨fun h => .inl (congrArg bits h), ?_⟩
    rintro (h | ⟨hzero, -⟩)
    · exact congrArg Value.mk h
    · exact absurd hzero.isNumber hvn

end Value

/-! ## Entries -/

namespace Table

variable {t : Table} {key key' value : Value}

/-- **Keys of one entry**: what is written at one of them is read at the other. -/
def OneEntry (key key' : Value) : Prop :=
  ∀ (t : Table) (value : Value), value.isNil = false → (t.set key value).get key' = value

lemma oneEntry_iff : OneEntry key key' ↔ key.SameKey key' := by
  rw [← Value.normalizeKey_eq_iff]
  constructor
  · intro h
    by_contra hne
    have hread := h .empty (.bool true) (by decide)
    rw [get_set, if_neg hne, get, show empty.entries = ∅ from rfl, Std.HashMap.getD_empty] at hread
    exact absurd hread (by decide)
  · intro heq t value hvalue
    rw [get_set, if_pos heq, hvalue, if_neg Bool.false_ne_true]

/-- **A settled table** stores no nil as a value and no negative zero as a key. -/
def Settled (t : Table) : Prop :=
  ∀ key value : Value, t.entries[key]? = some value → value.isNil = false ∧ key.bits ≠ 0x8000000000000000

lemma settled_of_isEmpty (h : t.entries.isEmpty) : t.Settled := by
  intro key value hentry
  rw [Std.HashMap.getElem?_of_isEmpty h] at hentry
  cases hentry

lemma Settled.set (h : t.Settled) (key value : Value) : (t.set key value).Settled := by
  intro k v hentry
  rcases hnil : value.isNil with _ | _
  · rw [Table.set, hnil, if_neg Bool.false_ne_true, Std.HashMap.getElem?_insert] at hentry
    split at hentry
    · next heq =>
      rw [← beq_iff_eq.1 heq, ← Option.some.inj hentry, Value.normalizeKey_eq_ite]
      refine ⟨hnil, ?_⟩
      split
      · decide
      · next hzero => exact fun hbits => hzero (.inr hbits)
    · exact h k v hentry
  · rw [Table.set, hnil, if_pos rfl, Std.HashMap.getElem?_erase] at hentry
    split at hentry
    · cases hentry
    · exact h k v hentry

end Table

/-! ## Writes -/

/-- A write to a table. -/
structure TableWrite where
  table : Value
  key : Value
  value : Value
deriving DecidableEq

namespace TableWrite

/-- What a write does. -/
def perform (w : TableWrite) : Action Unit := State.rawSet w.table w.key w.value

/-- What is read behind a write. -/
def reading (w : TableWrite) : Value := if w.value.isNil then .nil else w.value

/-- **A write hits a key of a table**: it is a write to the same table, at the same key. -/
def Hits (t key : Value) (w : TableWrite) : Prop :=
  t.isTable ∧ w.table.table? = t.table? ∧ w.key.SameKey key

instance (t key : Value) : DecidablePred (Hits t key) :=
  fun w => inferInstanceAs (Decidable (_ ∧ _ ∧ w.key.SameKey key))

end TableWrite

/-- The last of some writes that hits a key of a table. -/
def lastWrite? (ws : List TableWrite) (t key : Value) : Option TableWrite :=
  (ws.filter (·.Hits t key)).getLast?

lemma lastWrite?_cons (w : TableWrite) (ws : List TableWrite) (t key : Value) : lastWrite? (w :: ws) t key =
    (lastWrite? ws t key).or (if w.Hits t key then some w else none) := by
  rw [lastWrite?, lastWrite?, List.filter_cons]
  by_cases hhits : w.Hits t key
  · rw [if_pos (decide_eq_true hhits), if_pos hhits, List.getLast?_cons]
    cases (ws.filter (·.Hits t key)).getLast? <;> rfl
  · rw [if_neg (by simpa using hhits), if_neg hhits, Option.or_none]

namespace State

variable {s : State} {w : TableWrite} {ws : List TableWrite} {t key : Value} {i : ℕ}

/-- Whether a value is a table of the heap. -/
def HasTable (s : State) (t : Value) : Prop := ∃ i, t.table? = some i ∧ i < s.heap.tables.items.size

/-- **A fresh table** has no entries. -/
def Fresh (s : State) (t : Value) : Prop :=
  ∀ i table, t.table? = some i → s.heap.tables.get? i = some table → table.entries.isEmpty

/-- The state behind some writes, where those that fail are passed over. -/
def writes (s : State) (ws : List TableWrite) : State := ws.foldl (fun u w => (w.perform u).2) s

/-- The writes that succeed, if some are done one after the other. -/
def written : State → List TableWrite → List TableWrite
  | _, [] => []
  | s, w :: ws =>
    match w.perform s with
    | (.ok _, u) => w :: u.written ws
    | (.error _, u) => u.written ws

/-! ### One write -/

/-- **A write fails** for a bad key or if there is no such table, and does nothing then. -/
lemma perform_cases (w : TableWrite) (s : State) :
    ((w.key.isNil ∨ w.key.IsNaN ∨ ¬ s.HasTable w.table) ∧ ∃ e, w.perform s = (.error e, s)) ∨
    (¬ (w.key.isNil ∨ w.key.IsNaN ∨ ¬ s.HasTable w.table) ∧ ∃ i, w.table.table? = some i ∧
      i < s.heap.tables.items.size ∧
      w.perform s = (.ok (), { s with heap := s.heap.write i w.key w.value })) := by
  rw [TableWrite.perform, rawSet_eq, onHeap]
  by_cases hkey : isKey w.key = false
  · rw [if_pos hkey]
    rcases Value.isKey_eq_false_iff.1 hkey with hnil | hnan
    · exact .inl ⟨.inl hnil, _, rfl⟩
    · exact .inl ⟨.inr (.inl hnan), _, rfl⟩
  rw [if_neg hkey]
  rw [Value.isKey_eq_false_iff, not_or] at hkey
  rcases ht : w.table.table? with _ | i
  · refine .inl ⟨.inr (.inr ?_), _, rfl⟩
    rintro ⟨i, hi, -⟩
    rw [ht] at hi
    cases hi
  · by_cases hlt : i < s.heap.tables.items.size
    · refine .inr ⟨?_, i, rfl, hlt, by simp only [if_pos hlt]; rfl⟩
      rintro (hnil | hnan | htable)
      · exact hkey.1 hnil
      · exact hkey.2 hnan
      · exact htable ⟨i, ht, hlt⟩
    · refine .inl ⟨.inr (.inr ?_), .typeMismatch (.notTable w.table.typeName), by simp only [if_neg hlt]⟩
      rintro ⟨j, hj, hjlt⟩
      rw [ht, Option.some.injEq] at hj
      exact hlt (hj ▸ hjlt)

lemma isTable_of_table?_eq (h : t.table? = some i) : t.isTable := by
  rw [Value.table?] at h
  split at h
  · next htable => exact htable
  · cases h

/-- Reading behind a successful write. -/
lemma rawGet_write (hi : w.table.table? = some i) (hlt : i < s.heap.tables.items.size) (t key : Value) :
    ({ s with heap := s.heap.write i w.key w.value } : State).rawGet t key =
      if w.Hits t key then w.reading else s.rawGet t key := by
  rcases ht : t.table? with _ | j
  · have hmiss : ¬ w.Hits t key := by
      rintro ⟨-, heq, -⟩
      rw [hi, ht] at heq
      cases heq
    rw [if_neg hmiss, rawGet, rawGet, ht]
  · have htable := isTable_of_table?_eq ht
    rw [rawGet, rawGet, ht]
    dsimp only
    rw [Heap.tableGet_write]
    refine if_congr ?_ rfl rfl
    rw [TableWrite.Hits, hi, ht, Option.some.injEq, Value.normalizeKey_eq_iff]
    constructor
    · rintro ⟨rfl, -, hkey⟩
      exact ⟨htable, rfl, hkey⟩
    · rintro ⟨-, rfl, hkey⟩
      exact ⟨rfl, hlt, hkey⟩

/-! ### Many writes -/

lemma writes_cons (s : State) (w : TableWrite) (ws : List TableWrite) :
    s.writes (w :: ws) = (w.perform s).2.writes ws := rfl

lemma size_perform (w : TableWrite) (s : State) :
    (w.perform s).2.heap.tables.items.size = s.heap.tables.items.size := by
  rcases perform_cases w s with ⟨-, e, hrun⟩ | ⟨-, i, -, -, hrun⟩
  · rw [hrun]
  · rw [hrun]
    exact Array.size_modify ..

/-- Writes make no tables and take none away. -/
lemma hasTable_writes (ws : List TableWrite) (s : State) (t : Value) : (s.writes ws).HasTable t ↔ s.HasTable t := by
  induction ws generalizing s with
  | nil => rfl
  | cons w ws ih => rw [writes_cons, ih, HasTable, HasTable, size_perform]

/-- **Reading behind any writes** gives the value of the last successful one at the key, and what was read before
them if there is none. -/
theorem rawGet_writes (ws : List TableWrite) (s : State) (t key : Value) : (s.writes ws).rawGet t key =
    ((lastWrite? (s.written ws) t key).map TableWrite.reading).getD (s.rawGet t key) := by
  induction ws generalizing s with
  | nil => rfl
  | cons w ws ih =>
    rw [writes_cons, ih, written]
    rcases perform_cases w s with ⟨-, e, hrun⟩ | ⟨-, i, hi, hlt, hrun⟩
    · rw [hrun]
    · rw [hrun]
      dsimp only
      rw [lastWrite?_cons, rawGet_write hi hlt]
      by_cases hhits : w.Hits t key
      · rw [if_pos hhits, if_pos hhits]
        cases lastWrite? (State.written _ ws) t key <;> rfl
      · rw [if_neg hhits, if_neg hhits, Option.or_none]

/-- What every successful write keeps of a table, all of them keep. -/
lemma get?_writes {P : Table → Prop} (hset : ∀ table key value, P table → P (table.set key value)) (s : State)
    (h : ∀ table, s.heap.tables.get? i = some table → P table) :
    ∀ table, (s.writes ws).heap.tables.get? i = some table → P table := by
  induction ws generalizing s with
  | nil => exact h
  | cons w ws ih =>
    rw [writes_cons]
    refine ih _ fun table htable => ?_
    rcases perform_cases w s with ⟨-, e, hrun⟩ | ⟨-, j, -, -, hrun⟩
    · rw [hrun] at htable
      exact h table htable
    · rw [hrun] at htable
      dsimp only [Heap.write] at htable
      rw [Arena.get?_modify] at htable
      split at htable
      · obtain ⟨table', htable', rfl⟩ := Option.map_eq_some_iff.1 htable
        exact hset _ _ _ (h table' htable')
      · exact h table htable

/-- **Writes leave the other tables alone.** -/
lemma get?_writes_of_forall_ne (ws : List TableWrite) (s : State)
    (h : ∀ w ∈ s.written ws, w.table.table? ≠ some i) :
    (s.writes ws).heap.tables.get? i = s.heap.tables.get? i := by
  induction ws generalizing s with
  | nil => rfl
  | cons w ws ih =>
    rw [writes_cons]
    rw [written] at h
    rcases perform_cases w s with ⟨-, e, hrun⟩ | ⟨-, j, hj, -, hrun⟩
    · rw [hrun] at h ⊢
      exact ih s h
    · rw [hrun] at h ⊢
      obtain ⟨hw, hws⟩ := List.forall_mem_cons.1 h
      have hne : j ≠ i := fun heq => hw (heq ▸ hj)
      rw [ih _ hws]
      dsimp only [Heap.write]
      rw [Arena.get?_modify, if_neg hne]

lemma Fresh.rawGet (h : s.Fresh t) (key : Value) : s.rawGet t key = .nil := by
  rw [State.rawGet]
  split
  · next i hi =>
    rw [Heap.tableGet]
    split
    · next table htable => exact Std.HashMap.getD_of_isEmpty (h i table hi htable)
    · rfl
  · rfl

/-- **Tables are finite maps in which both zeros are one key.** Behind any writes, a further write fails just if its
key is nil or a NaN or it is to no table, and then changes nothing. In a table that was fresh before the writes, the
value of a key is that of the last successful write at the key, and nil if there is none or if nil was written. A table
to which no write has succeeded is as it was. Keys that are no NaNs have one entry just if they are equal, and no table
that was fresh comes to store a nil or a negative zero as key.

**Proof sketch.** A table stores positive zero in place of both zeros, and any other key as it is. So two keys have one
entry if they have the same bits or are both zeros, and numbers are compared in the same way. A write has the same
effect in whatever state it is done, so the rest is by induction on the writes. -/
theorem writes_map (s : State) (ws : List TableWrite) :
    (∀ w : TableWrite,
      ((w.perform (s.writes ws)).1 ≠ .ok () ↔ w.key.isNil ∨ w.key.IsNaN ∨ ¬ s.HasTable w.table) ∧
      ((w.perform (s.writes ws)).1 ≠ .ok () → (w.perform (s.writes ws)).2 = s.writes ws)) ∧
    (∀ t key, s.Fresh t → (s.writes ws).rawGet t key =
      ((lastWrite? (s.written ws) t key).map TableWrite.reading).getD .nil) ∧
    (∀ i, (∀ w ∈ s.written ws, w.table.table? ≠ some i) →
      (s.writes ws).heap.tables.get? i = s.heap.tables.get? i) ∧
    (∀ key key' : Value, ¬ key.IsNaN → ¬ key'.IsNaN → (Table.OneEntry key key' ↔ key.rawEqual key')) ∧
    ∀ t i table, s.Fresh t → t.table? = some i → (s.writes ws).heap.tables.get? i = some table →
      table.Settled := by
  refine ⟨fun w => ?_, fun t key hfresh => ?_, fun i => get?_writes_of_forall_ne ws s,
    fun key key' hkey hkey' => ?_, fun t i table hfresh hi => ?_⟩
  · rw [← hasTable_writes ws]
    rcases perform_cases w (s.writes ws) with ⟨hbad, e, hrun⟩ | ⟨hgood, i, -, -, hrun⟩
    · rw [hrun]
      exact ⟨iff_of_true (by nofun) hbad, fun _ => rfl⟩
    · rw [hrun]
      exact ⟨iff_of_false (fun h => h rfl) hgood, fun h => absurd rfl h⟩
  · rw [rawGet_writes, hfresh.rawGet]
  · rw [Table.oneEntry_iff, Value.rawEqual_iff hkey hkey']
  · exact get?_writes (fun _ key value h => h.set key value) s
      (fun table htable => Table.settled_of_isEmpty (hfresh i table hi htable)) table

/-- A machine whose tables have no entries yet. -/
def tableMachine : State := { State.new with heap := seedHeap }

/-- Writes at negative zero, at a NaN with its sign set, and to what is no table. -/
def zeroWrites : List TableWrite :=
  [⟨.table 2, ⟨0x8000000000000000⟩, .bool true⟩, ⟨.table 2, ⟨0xfff8000000000001⟩, .bool false⟩,
    ⟨.table 3, .bool true, .bool true⟩]

lemma fresh_tableMachine : tableMachine.Fresh (.table 2) := by
  intro i table hi htable
  obtain rfl : 2 = i := Option.some.inj (((by decide) : (Value.table 2).table? = some 2).symm.trans hi)
  have hempty : tableMachine.heap.tables.get? 2 = some .empty := rfl
  obtain rfl : Table.empty = table := Option.some.inj (hempty.symm.trans htable)
  exact Std.HashMap.isEmpty_empty

lemma written_zeroWrites : tableMachine.written zeroWrites = [⟨.table 2, ⟨0x8000000000000000⟩, .bool true⟩] := by
  decide +kernel

/-- Only the first of the writes succeeds, and positive zero is the key it is read at. -/
theorem writes_map_zero :
    tableMachine.Fresh (.table 2) ∧
      (tableMachine.writes zeroWrites).rawGet (.table 2) (.number .zero) = .bool true ∧
      (∀ table, (tableMachine.writes zeroWrites).heap.tables.get? 2 = some table → table.Settled) ∧
      (tableMachine.writes zeroWrites).heap.tables.get? 1 = tableMachine.heap.tables.get? 1 ∧
      (Table.OneEntry ⟨0x8000000000000000⟩ ⟨0⟩ ↔ (⟨0x8000000000000000⟩ : Value).rawEqual ⟨0⟩) := by
  obtain ⟨-, hread, hother, hentry, hsettled⟩ := writes_map tableMachine zeroWrites
  refine ⟨fresh_tableMachine, ?_, fun table => hsettled (.table 2) 2 table fresh_tableMachine (by decide), ?_, ?_⟩
  · rw [hread _ _ fresh_tableMachine, written_zeroWrites]
    decide
  · refine hother 1 ?_
    rw [written_zeroWrites]
    exact List.forall_mem_singleton.2 (by decide)
  · refine hentry _ _ ?_ ?_
    · rintro ⟨x, hx, hnan⟩
      cases hx
      exact absurd hnan (by decide)
    · rintro ⟨x, hx, hnan⟩
      cases hx
      exact absurd hnan (by decide)

end State

end ScriptCore
