import Mathlib
import ScriptCore.Proofs.TableWrites
import ScriptCore.Proofs.BinaryValues

set_option relaxedAutoImplicit false
set_option autoImplicit false

/-!
# Borders

The length of a table is counted: as long as the next number has an entry, the count goes on. Entries are never nil and
a number has only one of them, so the count ends, and where it ends, it has passed the numbers from one on whose values
are not nil, and the next one is nil.

Beyond `2 ^ 53` natural numbers are rounded, so that not each of them is a key of its own. A count comes there only in
a table with entries for all numbers up to `2 ^ 53`. The results below tell these tables apart, as no number up to there
could be their border.

## Main definitions

* `ScriptCore.Table.index`, `ScriptCore.Table.Filled` — the value of a number, and numbers without a nil.
* `ScriptCore.Table.Counts` — the count, with no bound on its steps.

## Main results

* `ScriptCore.Binary64.ofNat_exact`, `ScriptCore.Binary64.ofNat_injective` — the natural numbers that are not rounded.
* `ScriptCore.Table.Filled.le_size` — each number takes an entry.
* `ScriptCore.Table.Settled.border_maximal` — the border of a table without nils.
* `ScriptCore.State.border_writes` — the border behind any writes.
-/

namespace ScriptCore

/-! ## Natural numbers -/

namespace Binary64

variable {n m : ℕ}

/-- **Natural numbers up to `2 ^ 53` are not rounded.** -/
theorem ofNat_exact (h : n ≤ 2 ^ 53) : (ofNat n).isFinite = true ∧ (ofNat n).absRat = n := by
  obtain ⟨x, hfinite, hsign, habs⟩ :
      ∃ x : Binary64, x.isFinite = true ∧ x.isNegative = false ∧ x.absRat = n := by
    rcases h.lt_or_eq with hlt | rfl
    · obtain ⟨x, hfinite, hsign, habs⟩ := exists_of_scaled false (s := 0) hlt (by decide) (by decide)
      exact ⟨x, hfinite, hsign, by rw [habs, zpow_zero, mul_one]⟩
    · obtain ⟨x, hfinite, hsign, habs⟩ :=
        exists_of_scaled false (n := 1) (s := 53) (by decide) (by decide) (by decide)
      exact ⟨x, hfinite, hsign, by rw [habs]; norm_num⟩
  have hratio : ofNat n = x := by
    rw [ofNat, ← hsign]
    exact ofRatio_eq hfinite one_ne_zero (by rw [habs, Nat.cast_one, div_one])
  rw [hratio]
  exact ⟨hfinite, habs⟩

/-- So they are different numbers. -/
lemma ofNat_injective (hn : n ≤ 2 ^ 53) (hm : m ≤ 2 ^ 53) (h : ofNat n = ofNat m) : n = m := by
  have habs : ((n : ℕ) : ℚ) = m := by rw [← (ofNat_exact hn).2, h, (ofNat_exact hm).2]
  exact_mod_cast habs

lemma isNegative_ofNat (n : ℕ) : (ofNat n).isNegative = false := by
  rw [ofNat, ofRatio]
  split_ifs
  · exact isNegative_ofSignMagnitude (by decide)
  · exact isNegative_ofSignMagnitude (lt_of_le_of_lt (min_le_right _ _) (by decide))

/-- The next natural number is not a number of its own. -/
lemma ofNat_two_pow_succ : ofNat (2 ^ 53 + 1) = ofNat (2 ^ 53) := by decide +kernel

end Binary64

namespace Table

variable {t : Table} {n m : ℕ}

/-- The key of a natural number is itself, as none is a negative zero. -/
lemma normalizeKey_ofNat (n : ℕ) :
    (Value.number (Binary64.ofNat n)).normalizeKey = Value.number (Binary64.ofNat n) := by
  have hpositive : (Value.number (Binary64.ofNat n)).bits ≠ 0x8000000000000000 := by
    rw [Value.number]
    split_ifs
    · decide
    · intro hbits
      dsimp only at hbits
      have hsign := Binary64.isNegative_ofNat n
      rw [Binary64.isNegative, hbits] at hsign
      exact absurd hsign (by decide)
  rw [Value.normalizeKey_eq_ite, ite_eq_right_iff]
  rintro (hzero | hzero)
  · exact congrArg Value.mk hzero.symm
  · exact absurd hzero hpositive

/-! ## The values of numbers -/

/-- The value of a natural number. -/
def index (t : Table) (n : ℕ) : Value := t.get (.number (Binary64.ofNat n))

/-- **All numbers from one on**, up to the last one, have a value. -/
def Filled (t : Table) (n : ℕ) : Prop := ∀ i, 1 ≤ i → i ≤ n → (t.index i).isNil = false

lemma Filled.mono (h : t.Filled n) (hle : m ≤ n) : t.Filled m := fun i hpos hi => h i hpos (hi.trans hle)

/-- A number has an entry if its value is not nil. -/
lemma Settled.hasIndex_eq (h : t.Settled) (n : ℕ) : t.hasIndex n = !(t.index n).isNil := by
  rw [hasIndex, index, get, normalizeKey_ofNat, Std.HashMap.contains_eq_isSome_getElem?,
    Std.HashMap.getD_eq_getD_getElem?]
  rcases hentry : t.entries[Value.number (Binary64.ofNat n)]? with _ | v
  · rfl
  · rw [Option.isSome_some, Option.getD_some, (h _ v hentry).1]
    rfl

lemma Settled.filled_iff (h : t.Settled) : t.Filled n ↔ ∀ i, 1 ≤ i → i ≤ n → t.hasIndex i = true := by
  simp only [Filled, h.hasIndex_eq, Bool.not_eq_true']

/-- **Each number takes an entry**, as long as no two of them are the same key. -/
theorem Filled.le_size (hsettled : t.Settled) (h : t.Filled n) (hn : n ≤ 2 ^ 53) : n ≤ t.entries.size := by
  have hinj : Set.InjOn (fun i => Value.number (Binary64.ofNat i)) (Finset.Icc 1 n) := by
    intro i hi j hj heq
    have hi' : i ≤ 2 ^ 53 := (Finset.mem_Icc.1 hi).2.trans hn
    have hj' : j ≤ 2 ^ 53 := (Finset.mem_Icc.1 hj).2.trans hn
    have hnumber := congrArg Value.number? heq
    dsimp only at hnumber
    rw [Value.number?_number (Binary64.isNaN_of_isFinite (Binary64.ofNat_exact hi').1),
      Value.number?_number (Binary64.isNaN_of_isFinite (Binary64.ofNat_exact hj').1), Option.some.injEq] at hnumber
    exact Binary64.ofNat_injective hi' hj' hnumber
  have hmem : ∀ i ∈ Finset.Icc 1 n, Value.number (Binary64.ofNat i) ∈ t.entries.keys.toFinset := by
    intro i hi
    obtain ⟨hpos, hle⟩ := Finset.mem_Icc.1 hi
    rw [List.mem_toFinset, Std.HashMap.mem_keys]
    exact hsettled.filled_iff.1 h i hpos hle
  calc n = (Finset.Icc 1 n).card := by rw [Nat.card_Icc, Nat.add_sub_cancel]
    _ ≤ t.entries.keys.toFinset.card := Finset.card_le_card_of_injOn _ hmem hinj
    _ ≤ t.entries.keys.length := t.entries.keys.toFinset_card_le
    _ = t.entries.size := Std.HashMap.length_keys

/-! ## The count -/

/-- **The count** from a number on, and where it ends: it goes on as long as the next number has an entry. -/
inductive Counts (t : Table) : ℕ → ℕ → Prop
  | stop {n : ℕ} (hstop : t.hasIndex (n + 1) = false) : Counts t n n
  | step {n m : ℕ} (hnext : t.hasIndex (n + 1) = true) (hrest : Counts t (n + 1) m) : Counts t n m

/-- It ends at one number. -/
lemma Counts.unique {k : ℕ} (h : t.Counts k n) (h' : t.Counts k m) : n = m := by
  induction h with
  | stop hstop =>
    cases h' with
    | stop => rfl
    | step hnext => rw [hstop] at hnext; cases hnext
  | step hnext _ ih =>
    cases h' with
    | stop hstop => rw [hstop] at hnext; cases hnext
    | step _ hrest => exact ih hrest

lemma borderFrom_le (t : Table) (fuel n : ℕ) : t.borderFrom fuel n ≤ n + fuel := by
  induction fuel generalizing n with
  | zero => rfl
  | succ fuel ih =>
    rw [borderFrom]
    split
    · have hle := ih (n + 1)
      omega
    · exact Nat.le_add_right ..

/-- What the count has passed has an entry. -/
lemma hasIndex_of_le_borderFrom {fuel i : ℕ} (hlt : n < i) (hle : i ≤ t.borderFrom fuel n) :
    t.hasIndex i = true := by
  induction fuel generalizing n with
  | zero => exact absurd hle (Nat.not_le.2 hlt)
  | succ fuel ih =>
    rw [borderFrom] at hle
    split at hle
    · next hnext =>
      obtain rfl | hlt' := (Nat.succ_le_of_lt hlt).eq_or_lt
      · exact hnext
      · exact ih hlt' hle
    · exact absurd hle (Nat.not_le.2 hlt)

/-- A count that uses up its steps has come to its end if there is no entry behind them, and any other one has. -/
lemma counts_borderFrom {fuel : ℕ} (h : t.borderFrom fuel n = n + fuel → t.hasIndex (n + fuel + 1) = false) :
    t.Counts n (t.borderFrom fuel n) := by
  induction fuel generalizing n with
  | zero => exact .stop (h rfl)
  | succ fuel ih =>
    rw [borderFrom] at h ⊢
    split at h
    · next hnext =>
      rw [if_pos hnext]
      refine .step hnext (ih fun hall => ?_)
      rw [Nat.add_right_comm n 1 fuel] at hall ⊢
      exact h hall
    · next hnext =>
      rw [if_neg hnext]
      exact .stop (Bool.eq_false_iff.2 hnext)

/-- Behind the end of a count, there is no entry. -/
lemma Counts.hasIndex_succ (h : t.Counts n m) : t.hasIndex (m + 1) = false := by
  induction h with
  | stop hstop => exact hstop
  | step _ _ ih => exact ih

/-- **The border of a settled table**. All numbers up to it have a value, and there are no more of them than entries.
Unless all numbers up to `2 ^ 53` have a value, the count ends at the border and nowhere else, the next number is nil,
and no larger number has all values up to it.

**Proof sketch.** The count uses up its steps only if there are as many numbers in a row as entries. One more of them
would take one more entry (`Filled.le_size`). So in any case the count comes to its end. -/
theorem Settled.border_maximal (h : t.Settled) :
    t.Filled t.border ∧ t.border ≤ t.entries.size ∧
      (t.Filled (2 ^ 53) ∨
        (∀ n, t.Counts 0 n ↔ n = t.border) ∧ (t.index (t.border + 1)).isNil = true ∧
          ∀ n, t.Filled n → n ≤ t.border) := by
  have hle : t.border ≤ t.entries.size := (t.borderFrom_le _ 0).trans_eq (Nat.zero_add _)
  have hpassed : ∀ i, 1 ≤ i → i ≤ t.border → t.hasIndex i = true := fun i => hasIndex_of_le_borderFrom
  refine ⟨h.filled_iff.2 hpassed, hle, or_iff_not_imp_left.2 fun hroom => ?_⟩
  have hborder : t.border < 2 ^ 53 := by
    by_contra hge
    exact hroom ((h.filled_iff.2 hpassed).mono (not_lt.1 hge))
  have hend : t.Counts 0 t.border := by
    refine counts_borderFrom fun hall => ?_
    by_contra hnext
    have hmore : t.Filled (t.border + 1) := by
      refine h.filled_iff.2 fun i hpos hi => ?_
      rcases hi.lt_or_eq with hlt | rfl
      · exact hpassed i hpos (Nat.le_of_lt_succ hlt)
      · rw [border, hall]
        exact Bool.eq_true_of_not_eq_false hnext
    have hsize := hmore.le_size h hborder
    have hall' : t.border = 0 + t.entries.size := hall
    omega
  have hnil : (t.index (t.border + 1)).isNil = true := by
    simpa [h.hasIndex_eq] using hend.hasIndex_succ
  refine ⟨fun n => ⟨fun hn => hn.unique hend, fun hn => hn ▸ hend⟩, hnil, fun n hn => ?_⟩
  by_contra hlt
  have hvalue := hn (t.border + 1) (Nat.succ_pos _) (Nat.lt_of_not_le hlt)
  rw [hnil] at hvalue
  cases hvalue

/-- In a table with values for all numbers up to `2 ^ 53`, the next number has one as well, so a border up to there
would not be the largest number. -/
lemma Filled.two_pow_succ (h : t.Filled (2 ^ 53)) : t.Filled (2 ^ 53 + 1) := by
  intro i hpos hi
  rcases hi.lt_or_eq with hlt | rfl
  · exact h i hpos (Nat.le_of_lt_succ hlt)
  · rw [index, Binary64.ofNat_two_pow_succ]
    exact h (2 ^ 53) (by decide) le_rfl

end Table

/-! ## Behind any writes -/

namespace State

variable {s : State} {ws : List TableWrite} {t : Value} {i : ℕ} {table : Table}

/-- **The border behind any writes** to a table that was fresh before them. The numbers up to it are not nil, and there
are no more of them than entries. Unless the writes have filled all numbers up to `2 ^ 53`, the count comes to its end
there, the next number is nil, and no larger number has all values up to it.

**Proof sketch.** Whatever is written, no nil and no negative zero is stored (`Table.Settled.set`), and this is all
that the border takes (`Table.Settled.border_maximal`). -/
theorem border_writes (hfresh : s.Fresh t) (hi : t.table? = some i)
    (htable : (s.writes ws).heap.tables.get? i = some table) :
    table.Filled table.border ∧ table.border ≤ table.entries.size ∧
      (table.Filled (2 ^ 53) ∨
        (∀ n, table.Counts 0 n ↔ n = table.border) ∧ (table.index (table.border + 1)).isNil = true ∧
          ∀ n, table.Filled n → n ≤ table.border) := by
  refine Table.Settled.border_maximal ?_
  exact get?_writes (fun _ key value h => h.set key value) s
    (fun table htable => Table.settled_of_isEmpty (hfresh i table hi htable)) table htable

/-- What is read at a number is its value. -/
lemma rawGet_ofNat (hi : t.table? = some i) (htable : s.heap.tables.get? i = some table) (n : ℕ) :
    s.rawGet t (.number (Binary64.ofNat n)) = table.index n := by
  rw [State.rawGet, hi]
  dsimp only
  rw [Heap.tableGet, htable]
  rfl

/-- Writes at two numbers, at a negative zero and a fraction, and at a third number that is emptied again. -/
def borderWrites : List TableWrite :=
  [⟨.table 2, .number (Binary64.ofNat 3), .bool true⟩, ⟨.table 2, .number (Binary64.ofNat 1), .bool true⟩,
    ⟨.table 2, ⟨0x8000000000000000⟩, .bool true⟩, ⟨.table 2, .number (Binary64.ofRatio false 1 2), .bool true⟩,
    ⟨.table 2, .number (Binary64.ofNat 3), .nil⟩, ⟨.table 2, .number (Binary64.ofNat 2), .bool true⟩]

lemma written_borderWrites : tableMachine.written borderWrites = borderWrites := by decide +kernel

/-- The border is two. -/
theorem border_writes_two :
    tableMachine.Fresh (.table 2) ∧ ∃ table, (tableMachine.writes borderWrites).heap.tables.get? 2 = some table ∧
      table.border = 2 ∧ ∀ n, table.Counts 0 n ↔ n = 2 := by
  have hi : (Value.table 2).table? = some 2 := by decide
  obtain ⟨i, hi', hlt⟩ := (hasTable_writes borderWrites tableMachine (.table 2)).2 ⟨2, hi, by decide⟩
  obtain rfl : 2 = i := Option.some.inj (hi.symm.trans hi')
  obtain ⟨table, htable⟩ : ∃ table, (tableMachine.writes borderWrites).heap.tables.get? 2 = some table :=
    ⟨_, Array.getElem?_eq_getElem hlt⟩
  have hread (n : ℕ) : table.index n =
      ((lastWrite? borderWrites (.table 2) (.number (Binary64.ofNat n))).map TableWrite.reading).getD .nil := by
    rw [← rawGet_ofNat hi htable, rawGet_writes, fresh_tableMachine.rawGet, written_borderWrites]
  have hone : (table.index 1).isNil = false := by rw [hread]; decide +kernel
  have htwo : (table.index 2).isNil = false := by rw [hread]; decide +kernel
  have hthree : (table.index 3).isNil = true := by rw [hread]; decide +kernel
  obtain ⟨hfilled, -, hlarge | ⟨hcounts, -, hmaximal⟩⟩ := border_writes fresh_tableMachine hi htable
  · have hvalue := hlarge 3 (by decide) (by decide)
    rw [hthree] at hvalue
    cases hvalue
  have hge : 2 ≤ table.border := by
    refine hmaximal 2 fun i hpos hi => ?_
    interval_cases i
    · exact hone
    · exact htwo
  have hborder : table.border = 2 := by
    refine le_antisymm ?_ hge
    by_contra hlt
    have hvalue := hfilled 3 (by decide) (Nat.lt_of_not_le hlt)
    rw [hthree] at hvalue
    cases hvalue
  exact ⟨fresh_tableMachine, table, htable, hborder, by simpa only [hborder] using hcounts⟩

end State

end ScriptCore
