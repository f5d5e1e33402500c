import ScriptCore.Proofs.SealedTables

set_option relaxedAutoImplicit false
set_option autoImplicit false

/-!
# Libraries are registered

A library that is registered in a state without libraries gets a table of its own.

## Main definitions

* `ScriptCore.State.Succeeds` — actions that succeed.
* `ScriptCore.State.Bare` — states without libraries.

## Main results

* `ScriptCore.State.succeeds_registerLibrary` — a first library is registered.
* `ScriptCore.State.bare_new` — a new machine has no libraries.
-/

namespace ScriptCore

namespace State

/-- **An action succeeds**, with a result and a state as `post` says. -/
def Succeeds {α : Type} (x : Action α) (s : State) (post : α → State → Prop) : Prop :=
  ∃ a u, x s = (.ok a, u) ∧ post a u

/-- A table without entries. -/
def IsBlank (s : State) (i : ℕ) : Prop := s.heap.tables.get? i = some .empty

/-- **A state without libraries**: the registry has the table of libraries, and this and the table of globals are
blank. -/
structure Bare (s : State) : Prop where
  loaded : ∃ i l, s.heap.HoldsString i (Text.bytes loadedKey) ∧
    s.rawGet (.table s.registry) (.string i) = .table l ∧ l < Value.payloadLimit ∧ s.IsBlank l
  globals : s.globals < Value.payloadLimit ∧ s.IsBlank s.globals

/-- Between two states the frames and the top of the stack are the same. -/
structure SameFrame (s u : State) : Prop where
  top : u.top = s.top
  frames : u.frames = s.frames

/-- Between two states the tables and the globals are the same, too. -/
structure SameTables (s u : State) : Prop extends SameFrame s u where
  tables : u.heap.tables = s.heap.tables
  globals : u.globals = s.globals

variable {α β : Type} {s u : State}

lemma SameTables.isBlank (h : SameTables s u) {i : ℕ} (hi : s.IsBlank i) : u.IsBlank i := by
  rw [IsBlank, h.tables]
  exact hi

lemma Succeeds.bind {x : Action α} {f : α → Action β} {post : α → State → Prop} {post' : β → State → Prop}
    (hx : Succeeds x s post) (hf : ∀ a u, post a u → Succeeds (f a) u post') : Succeeds (x >>= f) s post' := by
  obtain ⟨a, u, hxs, ha⟩ := hx
  obtain ⟨b, v, hfu, hb⟩ := hf a u ha
  refine ⟨b, v, ?_, hb⟩
  rw [bind_apply, hxs, andThen_ok, hfu]

lemma Succeeds.get_bind {f : State → Action α} {post : α → State → Prop} (hf : Succeeds (f s) s post) :
    Succeeds (get >>= f) s post :=
  hf

lemma isKey_string (i : ℕ) : isKey (.string i) = true := by
  have htag := @Value.tag_box Value.stringTag i (by decide)
  rw [isKey, Value.number?_string, Value.isNil, Value.string, htag]
  rfl

/-- A string is made or found, and is a key. -/
lemma succeeds_intern (s : State) (name : String) :
    Succeeds (intern name) s fun v u => isKey v = true ∧ SameTables s u :=
  ⟨.string _, _, rfl, isKey_string _, ⟨rfl, rfl⟩, Heap.tables_intern _ _, rfl⟩

/-- A key of a table is set. -/
lemma rawSet_of_lt {table key value : Value} {i : ℕ} (hkey : isKey key = true) (hi : table.table? = some i)
    (hlt : i < s.heap.tables.items.size) : rawSet table key value s =
      (.ok (), { s with heap := { s.heap with tables := s.heap.tables.modify i (·.set key value) } }) := by
  rw [rawSet_eq, onHeap]
  simp only [hkey, hi, hlt, Bool.true_eq_false, ↓reduceIte]

lemma succeeds_rawSet {table key value : Value} {i : ℕ} (hkey : isKey key = true) (hi : table.table? = some i)
    (hlt : i < s.heap.tables.items.size) : Succeeds (rawSet table key value) s fun _ u =>
      u.heap.tables.items.size = s.heap.tables.items.size ∧ SameFrame s u :=
  ⟨(), _, rawSet_of_lt hkey hi hlt, Arena.size_modify .., rfl, rfl⟩

/-- What is read in a blank table. -/
lemma rawGet_of_isBlank {i : ℕ} (h : s.IsBlank i) (hi : i < Value.payloadLimit) (key : Value) :
    s.rawGet (.table i) key = .nil := by
  rw [rawGet, Value.table?_table, Nat.mod_eq_of_lt hi]
  dsimp only
  rw [Heap.tableGet, h]
  exact Std.HashMap.getD_empty

/-- A new table is one of those there are. -/
lemma succeeds_newTable (hwf : s.heap.tables.WellFormed) (size : ℕ) : Succeeds (newTable size) s fun v u =>
    (∃ i, v.table? = some i ∧ i < u.heap.tables.items.size) ∧ s.heap.tables.items.size ≤ u.heap.tables.items.size ∧
      SameFrame s u := by
  refine ⟨_, _, rfl, ⟨_, Value.table?_table _, ?_⟩, s.heap.tables.size_le_size_alloc _, rfl, rfl⟩
  exact (Nat.mod_le _ _).trans_lt (hwf.alloc_index .empty).2

lemma succeeds_push (v : Value) (htop : s.top < stackLimit) : Succeeds (push v) s fun _ u =>
    u.heap = s.heap ∧ u.top = s.top + 1 ∧ u.frames = s.frames := by
  refine ⟨(), (s.withStack (s.stack.set s.top v)).withTop (s.top + 1), ?_, rfl, rfl, rfl⟩
  rw [push_apply, if_neg (by omega)]

/-- What the registry has for the table of libraries is taken for it if it is a table. -/
lemma loadedTable_of_isTable (hs : s.heap.Interning) {i : ℕ} {v : Value}
    (hi : s.heap.HoldsString i (Text.bytes loadedKey)) (hget : s.rawGet (.table s.registry) (.string i) = v)
    (htable : v.isTable = true) : loadedTable s = (.ok v, s) := by
  have hintern : intern loadedKey s = (.ok (.string i), s) := by
    rw [intern, internBytes_eq, onHeap, hs.intern_of_holdsString hi]
  have hregistry : registryGet loadedKey s = (.ok v, s) := by
    rw [registryGet, bind_apply, hintern, andThen_ok, bind_apply, get_apply, andThen_ok, pure_apply, hget]
  rw [loadedTable, bind_apply, hregistry, andThen_ok, htable]
  rfl

/-- The table of libraries is found in the registry. -/
lemma loadedTable_of_rawGet (hs : s.heap.Interning) {i l : ℕ} (hi : s.heap.HoldsString i (Text.bytes loadedKey))
    (hget : s.rawGet (.table s.registry) (.string i) = .table l) : loadedTable s = (.ok (.table l), s) := by
  refine loadedTable_of_isTable hs hi hget ?_
  rw [Value.isTable, Value.table, Value.tag_box (by decide)]
  rfl

/-- **A library is registered** in a state without libraries, if there is room for its table on the stack. -/
lemma succeeds_registerLibrary {name : String} (hname : nameParts name = [name]) (size : ℕ) (hs : s.Sound)
    (hb : Bare s) (htop : s.top < stackLimit) : Succeeds (registerLibrary name size) s fun table u =>
      (∃ i, table.table? = some i ∧ i < u.heap.tables.items.size) ∧ u.top = s.top + 1 ∧ u.frames = s.frames := by
  obtain ⟨i, l, hi, hget, hl, hblank⟩ := hb.loaded
  have hloaded := loadedTable_of_rawGet hs.heap.orderly.interning hi hget
  obtain ⟨hglobals, hglobal⟩ := hb.globals
  have hwf := hs.heap.orderly.wellFormed.tables
  have hfirst : Succeeds loadedTable s fun v u => v = .table l ∧ s = u := ⟨_, _, hloaded, rfl, rfl⟩
  refine hfirst.bind ?_
  rintro _ _ ⟨rfl, rfl⟩
  refine (succeeds_intern _ name).bind fun key v ⟨hkey, hv⟩ => ?_
  have hnot : (v.rawGet (.table l) key).isTable = false := by
    rw [rawGet_of_isBlank (hv.isBlank hblank) hl]
    rfl
  refine .get_bind ?_
  rw [if_neg (by rw [hnot]; decide)]
  -- the global is missing, and a table for it is made
  refine .get_bind ?_
  rw [hname, hv.globals]
  have hnewTable : Succeeds (findTable name size [name] (.table s.globals)) v fun table u =>
      (∃ i, table.table? = some i ∧ i < u.heap.tables.items.size) ∧
        v.heap.tables.items.size ≤ u.heap.tables.items.size ∧ SameFrame v u := by
    refine (succeeds_intern _ name).bind fun key' w ⟨hkey', hw⟩ => .get_bind ?_
    have hblank := hw.isBlank (hv.isBlank hglobal)
    have hnil : (w.rawGet (.table s.globals) key').isNil = true := by
      rw [rawGet_of_isBlank hblank hglobals]
      rfl
    rw [if_pos hnil]
    have hwf : w.heap.tables.WellFormed := by
      rw [hw.tables, hv.tables]
      exact hwf
    refine (succeeds_newTable hwf _).bind fun table x ⟨⟨i, hi, hlt⟩, hle, hx⟩ => ?_
    have hroom := (Arena.lt_size_of_get? hblank).trans_le hle
    refine (succeeds_rawSet hkey' (by rw [Value.table?_table, Nat.mod_eq_of_lt hglobals]) hroom).bind
      fun _ y ⟨hsize, hy⟩ => ⟨table, y, rfl, ⟨i, hi, hsize ▸ hlt⟩, ?_, hy.top.trans (hx.top.trans hw.top),
        hy.frames.trans (hx.frames.trans hw.frames)⟩
    rw [hsize, ← hw.tables]
    exact hle
  refine hnewTable.bind fun table w ⟨hin, hle, hw⟩ => ?_
  have hlt : l < w.heap.tables.items.size := by
    have hlt := Arena.lt_size_of_get? hblank
    rw [hv.tables] at hle
    omega
  refine (succeeds_rawSet hkey (by rw [Value.table?_table, Nat.mod_eq_of_lt hl]) hlt).bind
    fun _ x ⟨hsize, hx⟩ => ?_
  have hxtop : x.top = s.top := hx.top.trans (hw.top.trans hv.top)
  refine (succeeds_push table (by rw [hxtop]; exact htop)).bind fun _ y ⟨hheap, hy, hyframes⟩ => ?_
  refine ⟨table, y, rfl, ?_, hy.trans (congrArg (· + 1) hxtop),
    hyframes.trans (hx.frames.trans (hw.frames.trans hv.frames))⟩
  rwa [hheap, hsize]

/-- The heap of a new machine before its registry has an entry: with three tables without entries, and the name
of the table of libraries. -/
def seedHeap : Heap := (((Heap.empty.newTable 64).2.newTable 4).2.newTable 16).2

/-- The registry of a new machine has the table of libraries under its name. -/
lemma tables_new : ∃ i, State.new.heap.HoldsString i (Text.bytes loadedKey) ∧
    State.new.heap.tables = seedHeap.tables.modify 1 (·.set (.string i) (.table 2)) := by
  have htables : (seedHeap.intern (Text.bytes loadedKey)).2.tables = seedHeap.tables := Heap.tables_intern ..
  have hsound : seedHeap.Sound 0 :=
    (((Heap.sound_empty.newTable 64).1.sound.newTable 4).1.sound.newTable 16).1.sound
  have hkey := hsound.orderly.interning.holdsString_index (Text.bytes loadedKey)
  obtain ⟨i, hi⟩ : ∃ i, (seedHeap.intern (Text.bytes loadedKey)).1 = i := ⟨_, rfl⟩
  rw [hi] at hkey
  refine ⟨i, ⟨hkey.inUse, hkey.content⟩, ?_⟩
  rw [← htables, ← hi]
  rfl

/-- A new machine has no libraries. -/
lemma bare_new : State.new.Bare := by
  obtain ⟨i, hi, hnew⟩ := tables_new
  have hblank {t : ℕ} (h : seedHeap.tables.get? t = some .empty) (hne : 1 ≠ t) : State.new.IsBlank t := by
    rw [IsBlank, hnew, Arena.get?_modify, if_neg hne]
    exact h
  have hregistry : State.new.heap.tables.get? 1 = some (Table.empty.set (.string i) (.table 2)) := by
    rw [hnew, Arena.get?_modify, if_pos rfl]
    rfl
  refine ⟨⟨i, 2, hi, ?_, by decide, hblank rfl (by decide)⟩, by decide, hblank rfl (by decide)⟩
  change State.new.rawGet (.table 1) (.string i) = .table 2
  rw [rawGet, Value.table?_table, Nat.mod_eq_of_lt (by decide)]
  dsimp only
  rw [Heap.tableGet, hregistry]
  dsimp only
  rw [Table.get_set, if_pos rfl]
  rfl

end State

end ScriptCore
