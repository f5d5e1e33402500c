import ScriptCore.Proofs.CorrespondingActions
import ScriptCore.Proofs.LibraryTables

set_option relaxedAutoImplicit false
set_option autoImplicit false

/-!
# The table of a library

The first registration of a name walks along the parts of the name from the globals, as far as there are tables, and
makes the tables that are missing. It records the table it comes to, so that every later registration gives the same
table again, wherever the walk would lead by then.

## Main definitions

* `ScriptCore.State.recorded` — what the table of libraries has for a name.
* `ScriptCore.State.walk` — how far the parts of a name lead.
* `ScriptCore.State.Completes` — the tables that were missing on a walk are made.
* `ScriptCore.State.Registered` — what a registration that succeeds has done.

## Main results

* `ScriptCore.State.registered_registerLibrary` — registering a library.
-/

namespace ScriptCore.State

/-! ## Looking up names -/

/-- The key that stands for a name: the string with this text, if there is one. -/
def nameKey (s : State) (name : String) : Value :=
  match s.heap.find? (Text.bytes name) with
  | some i => .string i
  | none => .nil

/-- The table of libraries. -/
def libraries (s : State) : Value := s.rawGet (.table s.registry) (s.nameKey loadedKey)

/-- What the table of libraries has for a name. -/
def recorded (s : State) (name : String) : Value := s.rawGet s.libraries (s.nameKey name)

/-- **Walks along the parts of a name** from a value, each part being a key, as far as there are values. The result is
what is left of the parts, and the last value. -/
def walk (s : State) (key : String → Value) : List String → Value → List String × Value
  | [], v => ([], v)
  | part :: rest, v =>
    let next := s.rawGet v (key part)
    if next.isNil then (part :: rest, v) else s.walk key rest next

variable {g r l i c n : ℕ} {s t u : State} {name : String} {v w start last : Value} {missing parts : List String}
  {key : String → Value} {α β : Type}

lemma rawGet_of_table? (hi : v.table? = some i) (k : Value) : s.rawGet v k = s.heap.tableGet i k := by
  rw [rawGet, hi]

lemma rawGet_of_no_table (hv : v.table? = none) (k : Value) : s.rawGet v k = .nil := by
  rw [rawGet, hv]

lemma nameKey_of_holdsString (hs : s.heap.Interning) (hi : s.heap.HoldsString i (Text.bytes name)) :
    s.nameKey name = .string i := by
  have hfind : s.heap.find? (Text.bytes name) = some i := (hs.interned_iff _ i).2 hi
  rw [nameKey, hfind]

/-- The table of libraries is the value of its key in the registry. -/
lemma libraries_of_tableGet (hs : s.heap.Interning) (hlt : s.registry < Value.payloadLimit)
    (hi : s.heap.HoldsString i (Text.bytes loadedKey)) (hget : s.heap.tableGet s.registry (.string i) = v) :
    s.libraries = v := by
  have hregistry : (Value.table s.registry).table? = some s.registry := by
    rw [Value.table?_table, Nat.mod_eq_of_lt hlt]
  rw [libraries, nameKey_of_holdsString hs hi, rawGet_of_table? hregistry, hget]

section Recorded

variable (hk : s.heap.KeepsLibraries s.globals s.registry l)

include hk

lemma libraries_eq : s.libraries = .table l := by
  obtain ⟨i, hi, hget⟩ := hk.key
  exact libraries_of_tableGet hk.regular.interning (hk.table_lt hk.registry) hi hget

lemma recorded_eq (name : String) : s.recorded name = s.heap.tableGet l (s.nameKey name) := by
  rw [recorded, libraries_eq hk, rawGet_of_table? (hk.table?_table hk.libraries)]

lemma recorded_of_records (hv : s.heap.Records l name v) : s.recorded name = v := by
  obtain ⟨-, i, hi, rfl⟩ := hv
  rw [recorded_eq hk, nameKey_of_holdsString hk.regular.interning hi]

/-- What the table of libraries has for a name is recorded there. -/
lemma records_recorded (hv : (s.recorded name).isNil = false) : s.heap.Records l name (s.recorded name) := by
  rw [recorded_eq hk] at hv ⊢
  cases hfind : s.heap.find? (Text.bytes name) with
  | some i =>
    have hi : s.heap.HoldsString i (Text.bytes name) := (hk.regular.interning.interned_iff _ i).1 hfind
    exact ⟨hv, i, hi, by rw [nameKey_of_holdsString hk.regular.interning hi]⟩
  | none =>
    -- only strings are keys of the table of libraries
    rw [nameKey, hfind] at hv
    obtain ⟨i, hkey, -⟩ := (hk.entry _ hv).key
    have hnil : Value.nil = .string i := hkey
    have hobject : Value.nil.object? = some (.string (i % Value.payloadLimit)) := by
      rw [hnil, Value.string, Value.object?_box (by decide), if_pos rfl]
    rw [Value.isPlain_nil.object] at hobject
    cases hobject

end Recorded

/-- Setting a key fails and does nothing, or writes to a table. -/
lemma rawSet_cases (table key value : Value) (s : State) : (∃ e, rawSet table key value s = (.error e, s)) ∨
    ∃ i, table.table? = some i ∧ i < s.heap.tables.items.size ∧
      rawSet table key value s = (.ok (), { s with heap := s.heap.write i key value }) := by
  rw [rawSet_eq, State.onHeap]
  split
  · exact .inl ⟨_, rfl⟩
  split
  · next i hi =>
    split
    · next hlt => exact .inr ⟨i, hi, hlt, rfl⟩
    · exact .inl ⟨_, rfl⟩
  · exact .inl ⟨_, rfl⟩

/-! ## Walks -/

lemma walk_cons_of_nil {part : String} {rest : List String} (h : (s.rawGet v (key part)).isNil = true) :
    s.walk key (part :: rest) v = (part :: rest, v) := by
  rw [walk]
  exact if_pos h

lemma walk_cons_of_not_nil {part : String} {rest : List String} (h : (s.rawGet v (key part)).isNil = false) :
    s.walk key (part :: rest) v = s.walk key rest (s.rawGet v (key part)) := by
  rw [walk]
  exact if_neg (by rw [h]; decide)

/-- A walk ends at once where there is nothing. -/
lemma walk_of_blank (h : ∀ k, (s.rawGet v k).isNil = true) (parts : List String) :
    s.walk key parts v = (parts, v) := by
  cases parts with
  | nil => rfl
  | cons part rest => exact walk_cons_of_nil (h _)

/-- A walk reads tables only. -/
lemma walk_of_tables_eq (htables : t.heap.tables = s.heap.tables) (parts : List String) (v : Value) :
    t.walk key parts v = s.walk key parts v := by
  have hget : ∀ v k, t.rawGet v k = s.rawGet v k := fun v k => by
    simp only [rawGet, Heap.tableGet, htables]
  induction parts generalizing v with
  | nil => rfl
  | cons part rest ih => simp only [walk, hget, ih]

/-- **A walk comes through its first part again** if the entries of the tables on its way are still there. -/
lemma walk_of_kept (hkept : ∀ c i k, start.table? = some c → Relation.ReflTransGen s.heap.Holds c i →
      (s.heap.tableGet i k).isNil = false → t.heap.tableGet i k = s.heap.tableGet i k)
    (hwalk : s.walk key parts start = (missing, last)) : t.walk key parts start = t.walk key missing last := by
  induction parts generalizing start with
  | nil =>
    cases hwalk
    rfl
  | cons part rest ih =>
    by_cases hnil : (s.rawGet start (key part)).isNil = true
    · rw [walk_cons_of_nil hnil] at hwalk
      cases hwalk
      rfl
    rw [Bool.not_eq_true] at hnil
    rw [walk_cons_of_not_nil hnil] at hwalk
    cases hc : start.table? with
    | none =>
      rw [rawGet_of_no_table hc] at hnil
      exact absurd hnil (by decide)
    | some c =>
      have hsame : t.rawGet start (key part) = s.rawGet start (key part) := by
        rw [rawGet_of_table? hc] at hnil
        rw [rawGet_of_table? hc, rawGet_of_table? hc, hkept c c _ hc .refl hnil]
      rw [walk_cons_of_not_nil (hsame ▸ hnil), hsame]
      refine ih (fun d i k hd hi => hkept c i k hc (.head ⟨key part, ?_⟩ hi)) hwalk
      rwa [← rawGet_of_table? hc]

/-- The last value of a walk is found from its start. -/
lemma found_of_walk (hc : start.table? = some c) (hwalk : s.walk key parts start = (missing, last))
    (hi : last.table? = some i) : Relation.ReflTransGen s.heap.Holds c i := by
  induction parts generalizing start c with
  | nil =>
    cases hwalk
    rw [hc, Option.some.injEq] at hi
    exact hi ▸ .refl
  | cons part rest ih =>
    by_cases hnil : (s.rawGet start (key part)).isNil = true
    · rw [walk_cons_of_nil hnil] at hwalk
      cases hwalk
      rw [hc, Option.some.injEq] at hi
      exact hi ▸ .refl
    rw [Bool.not_eq_true] at hnil
    rw [walk_cons_of_not_nil hnil] at hwalk
    cases hd : (s.rawGet start (key part)).table? with
    | some d => exact .head ⟨key part, by rwa [← rawGet_of_table? hc]⟩ (ih hd hwalk)
    | none =>
      -- a walk does not go on from what is no table
      rw [walk_of_blank fun k => by rw [rawGet_of_no_table hd]; rfl] at hwalk
      cases hwalk
      rw [hd] at hi
      cases hi

/-- A walk ends where the next part leads nowhere. -/
lemma isNil_of_walk {part : String} {rest : List String} (hwalk : s.walk key parts start = (part :: rest, last)) :
    (s.rawGet last (key part)).isNil = true := by
  induction parts generalizing start with
  | nil => cases hwalk
  | cons part' rest' ih =>
    by_cases hnil : (s.rawGet start (key part')).isNil = true
    · rw [walk_cons_of_nil hnil] at hwalk
      cases hwalk
      exact hnil
    · rw [walk_cons_of_not_nil (Bool.not_eq_true _ ▸ hnil)] at hwalk
      exact ih hwalk

/-! ## Actions that leave libraries alone -/

/-- **A state comes from another one and leaves libraries alone**: nothing but the heap has changed, strings and tables
have been added, and the table of libraries is as it was. -/
structure Comes (g r l : ℕ) (s u : State) : Prop where
  leaves : s.heap.Leaves g r l u.heap
  closed : s.heap.Closed → u.heap.Closed
  rest : u = { s with heap := u.heap }

/-- **An action leaves libraries alone**, and its result is as `post` says, if there are handles for all entries in
the end. -/
def Sparing (g r l : ℕ) (x : Action α) (s : State) (post : α → State → Prop) : Prop :=
  (x s).2.heap.Fits → Comes g r l s (x s).2 ∧ ∀ a, (x s).1 = .ok a → post a (x s).2

/-- **A value is open**: it avoids the reserved tables, and is no stray handle if tables in use hold such tables
only. -/
structure IsOpen (r l : ℕ) (h : Heap) (v : Value) : Prop where
  avoids : h.Avoids (Heap.Reserved r l) v
  inUse : h.Closed → ∀ i, v.table? = some i → h.InUse (.table i)

lemma Comes.refl (hk : s.heap.KeepsLibraries g r l) : Comes g r l s s := ⟨hk.refl, id, rfl⟩

section Rest

variable (hsu : Comes g r l s u)

include hsu

lemma Comes.globals : u.globals = s.globals := by rw [hsu.rest]

lemma Comes.registry : u.registry = s.registry := by rw [hsu.rest]

lemma Comes.top : u.top = s.top := by rw [hsu.rest]

lemma Comes.stack : u.stack = s.stack := by rw [hsu.rest]

end Rest

lemma Comes.trans (hst : Comes g r l s t) (htu : Comes g r l t u) : Comes g r l s u := by
  refine ⟨hst.leaves.trans htu.leaves, htu.closed ∘ hst.closed, ?_⟩
  rw [htu.rest, hst.rest]

lemma IsOpen.tableGet {h : Heap} (hv : IsOpen r l h v) (hi : v.table? = some i) (k : Value) :
    IsOpen r l h (h.tableGet i k) :=
  ⟨hv.avoids.tableGet hi k, fun hclosed j hj => hclosed i j (hv.inUse hclosed i hi) ⟨k, hj⟩⟩

lemma IsOpen.of_tables_eq {h h' : Heap} (hv : IsOpen r l h v) (htables : h'.tables = h.tables) :
    IsOpen r l h' v := by
  refine ⟨hv.avoids.of_entries fun i k => .inl (Heap.tableGet_of_tables_eq htables i k), fun hclosed i hi => ?_⟩
  have hin := hv.inUse (hclosed.of_tables_eq htables.symm) i hi
  rwa [Heap.InUse, htables]

namespace Sparing

variable {x : Action α} {f : α → Action β} {post : α → State → Prop} {post' : β → State → Prop}

lemma pure {a : α} (hk : s.heap.KeepsLibraries g r l) (ha : post a s) : Sparing g r l (Pure.pure a) s post := by
  refine fun _ => ⟨.refl hk, fun b hb => ?_⟩
  cases hb
  exact ha

lemma throw (hk : s.heap.KeepsLibraries g r l) (e : RuntimeError) : Sparing g r l (throw e : Action α) s post :=
  fun _ => ⟨.refl hk, nofun⟩

lemma get_bind {f : State → Action α} (hf : Sparing g r l (f s) s post) : Sparing g r l (get >>= f) s post := hf

lemma imp {post' : α → State → Prop} (hx : Sparing g r l x s post)
    (himp : ∀ a u, Comes g r l s u → post a u → post' a u) : Sparing g r l x s post' := fun hfits =>
  ⟨(hx hfits).1, fun a ha => himp a _ (hx hfits).1 ((hx hfits).2 a ha)⟩

/-- **A sequence** leaves libraries alone if its parts do. No entry is taken away by what follows. -/
theorem bind (hx : Sparing g r l x s post) (hspans : ∀ a, Keeps Heap.Spans (f a))
    (hf : ∀ a u, Comes g r l s u → post a u → Sparing g r l (f a) u post') :
    Sparing g r l (x >>= f) s post' := by
  unfold Sparing at *
  rw [bind_apply]
  revert hx
  rcases x s with ⟨e | a, u⟩
  · intro hx hfits
    exact ⟨(hx hfits).1, nofun⟩
  · intro hx hfits
    obtain ⟨hsu, hpost⟩ := hx ((hspans a u).fits hfits)
    obtain ⟨huv, hpost'⟩ := hf a u hsu (hpost a rfl) hfits
    exact ⟨hsu.trans huv, hpost'⟩

/-- An action on the heap. -/
lemma onHeap {f : Heap → Except RuntimeError α × Heap} (hleaves : (f s.heap).2.Fits → s.heap.Leaves g r l (f s.heap).2)
    (hclosed : s.heap.Closed → (f s.heap).2.Closed)
    (hpost : ∀ a, (f s.heap).1 = .ok a → post a { s with heap := (f s.heap).2 }) :
    Sparing g r l (State.onHeap f) s post :=
  fun hfits => ⟨⟨hleaves hfits, hclosed, rfl⟩, hpost⟩

variable (hk : s.heap.KeepsLibraries g r l)

include hk

lemma intern (name : String) : Sparing g r l (State.intern name) s fun k u =>
    ∃ i, k = .string i ∧ u.heap.HoldsString i (Text.bytes name) ∧ u.heap.tables = s.heap.tables := by
  rw [State.intern, internBytes_eq]
  refine onHeap (hk.intern _) (fun hclosed => hclosed.of_tables_eq (s.heap.tables_intern _)) fun k hok => ?_
  cases hok
  exact ⟨_, rfl, hk.regular.interning.holdsString_index _, s.heap.tables_intern _⟩

lemma newTable (size : ℕ) : Sparing g r l (State.newTable size) s fun v u =>
    v = .table (s.heap.newTable size).1 ∧ u.heap = (s.heap.newTable size).2 := by
  rw [newTable_eq]
  refine onHeap (hk.newTable size) (fun hclosed => hclosed.newTable hk.regular size) fun v hok => ?_
  cases hok
  exact ⟨rfl, rfl⟩

/-- A value is written that is not a table, or is in use, and avoids the reserved tables. -/
lemma rawSet {table k value : Value} (htable : ∀ i, table.table? = some i → ¬ Heap.Reserved r l i)
    (hvalue : IsOpen r l s.heap value) : Sparing g r l (State.rawSet table k value) s fun _ u =>
      ∃ i, table.table? = some i ∧ i < s.heap.tables.items.size ∧ u.heap = s.heap.write i k value := by
  unfold Sparing
  rcases rawSet_cases table k value s with ⟨e, heq⟩ | ⟨i, hi, hlt, heq⟩ <;> rw [heq]
  · exact fun _ => ⟨.refl hk, nofun⟩
  · have hapart := Heap.KeepsLibraries.avoids_write hk.apart hvalue.avoids i k
    refine fun _ => ⟨⟨hk.write (htable i hi) k value hapart, fun hclosed => ?_, rfl⟩, fun _ _ => ⟨i, hi, hlt, rfl⟩⟩
    exact hclosed.write (hvalue.inUse hclosed) i k

/-- A table is made and written to an open one. -/
lemma make {size : ℕ} {k : Value} {f : Value → Action α} (hv : IsOpen r l s.heap v) (hc : v.table? = some c)
    (hspans : ∀ a, Keeps Heap.Spans (f a))
    (hf : ∀ n u, Comes g r l s u → (s.heap.newTable size).1 = n →
      u.heap = (s.heap.newTable size).2.write c k (.table n) → u.heap.InUse (.table n) →
      (Value.table n).table? = some n → IsOpen r l u.heap (.table n) → Sparing g r l (f (.table n)) u post) :
    Sparing g r l (State.newTable size >>= fun table => State.rawSet v k table >>= fun _ => f table) s post := by
  refine (newTable hk size).bind (fun table => (Keeps.rawSet _ _ _).bind fun _ => hspans table) ?_
  rintro _ m hsm ⟨rfl, hm⟩
  obtain ⟨n, hn⟩ : ∃ n, (s.heap.newTable size).1 = n := ⟨_, rfl⟩
  rw [hn]
  have hkm := hsm.leaves.keeps
  have hwf := hk.regular.wellFormed
  have hnew : ¬ s.heap.InUse (.table n) := hn ▸ (hwf.tables.alloc_index .empty).1
  have hin : m.heap.InUse (.table n) := by
    rw [hm, ← hn]
    exact Heap.inUse_newTable hwf _
  have htable := hkm.table?_table hin
  have hget : ∀ i k, m.heap.tableGet i k = if i = n then .nil else s.heap.tableGet i k := fun i k => by
    rw [hm, Heap.tableGet_newTable hwf, hn]
  have hold : ∀ {w}, s.heap.Avoids (Heap.Reserved r l) w → m.heap.Avoids (Heap.Reserved r l) w := fun hw =>
    hw.of_entries fun i k => by
      rw [hget]
      split
      · exact .inr Heap.avoids_nil
      · exact .inl rfl
  have hmade : m.heap.Avoids (Heap.Reserved r l) (.table n) := by
    refine Heap.avoids_of_blank (fun k => by rw [hget, if_pos rfl]) htable ?_
    rintro (rfl | rfl)
    · exact hnew hk.registry
    · exact hnew hk.libraries
  have hinUse : ∀ j, (Value.table n).table? = some j → m.heap.InUse (.table j) := fun j hj => by
    rw [htable, Option.some.injEq] at hj
    exact hj ▸ hin
  refine (rawSet hkm (k := k) (fun j hj => (hold hv.avoids).not hj) ⟨hmade, fun _ => hinUse⟩).bind
    (fun _ => hspans _) fun _ u hmu ⟨c', hc', _, hu⟩ => ?_
  rw [hc, Option.some.injEq] at hc'
  subst hc'
  exact hf n u (hsm.trans hmu) hn (hm ▸ hu) (hmu.leaves.adds.inUse _ hin) htable
    ⟨hu ▸ Heap.KeepsLibraries.avoids_write hmade hmade c k, fun _ j hj => hmu.leaves.adds.inUse _ (hinUse j hj)⟩

end Sparing

/-! ## Making the missing tables -/

/-- **The missing tables are made**, and nothing else is changed but for certain other entries. The first new table
comes into the last one that was there. -/
structure Completes (s t : State) (others : ℕ → Value → Prop) (missing : List String) (last v : Value) : Prop where
  /-- The parts that were missing lead to the table. -/
  walk : t.walk t.nameKey missing last = ([], v)
  /-- Each of them has one new table. -/
  made : ∃ made : List ℕ, made.length = missing.length ∧ made.Nodup ∧
    (∀ i ∈ made, ¬ s.heap.InUse (.table i)) ∧ ∀ i, t.heap.InUse (.table i) ↔ i ∈ made ∨ s.heap.InUse (.table i)
  /-- The last one of these is empty, -/
  blank : missing ≠ [] → ∀ k, t.rawGet v k = .nil
  /-- and the tables that were there keep their contents. -/
  kept : ∀ i k, s.heap.InUse (.table i) → t.heap.tableGet i k = s.heap.tableGet i k ∨
    (last.table? = some i ∧ missing.head?.map t.nameKey = some k) ∨ others i k

/-- A new table comes into the table `c`. -/
structure Makes (s u : State) (c n : ℕ) (k : Value) : Prop where
  new : ¬ s.heap.InUse (.table n)
  inUse : ∀ i, u.heap.InUse (.table i) ↔ i = n ∨ s.heap.InUse (.table i)
  entry : u.heap.tableGet c k = .table n
  blank : ∀ k', u.heap.tableGet n k' = .nil
  kept : ∀ i k', i ≠ n → u.heap.tableGet i k' = s.heap.tableGet i k' ∨ (i = c ∧ k' = k)

/-- A table is made and written to a table in use. -/
lemma makes_newTable {h : Heap} (hr : h.Regular) (htables : h.tables = s.heap.tables) (hc : s.heap.InUse (.table c))
    {size : ℕ} (hn : (h.newTable size).1 = n) (hlt : n < Value.payloadLimit)
    (hu : u.heap = (h.newTable size).2.write c (.string i) (.table n)) : Makes s u c n (.string i) := by
  have hwf := hr.wellFormed
  have hin : h.InUse (.table c) := by rwa [Heap.InUse, htables]
  have hnew : ¬ h.InUse (.table n) := hn ▸ (hwf.tables.alloc_index .empty).1
  have hne : c ≠ n := fun heq => hnew (heq ▸ hin)
  have hget : ∀ j k, (h.newTable size).2.tableGet j k = if j = n then .nil else s.heap.tableGet j k := by
    intro j k
    rw [Heap.tableGet_newTable hwf, hn, Heap.tableGet_of_tables_eq htables]
  have hsize : c < (h.newTable size).2.tables.items.size :=
    hin.lt_size.trans_le (h.tables.size_le_size_alloc .empty)
  have hnil : (Value.table n).isNil = false := Value.isNil_of_object? (Value.object?_table hlt)
  refine ⟨fun hin => hnew (by rwa [Heap.InUse, htables]), fun j => ?_, ?_, fun k => ?_, fun j k hj => ?_⟩
  · rw [hu, ← hn]
    have halloc := hwf.tables.inUse_alloc_iff .empty (i := j)
    rw [htables] at halloc
    exact (Arena.inUse_modify_iff _ c j _).trans (by simpa [Heap.InUse, Heap.newTable, htables] using halloc)
  · rw [hu, Heap.tableGet_write, if_pos ⟨rfl, hsize, rfl⟩, hnil]
    rfl
  · rw [hu, Heap.tableGet_write_of_ne hne, hget, if_pos rfl]
  · rw [hu]
    rcases Heap.tableGet_write_cases (h.newTable size).2 c j (.string i) (.table n) k with heq | ⟨hcj, hkey, -⟩
    · rw [heq, hget, if_neg hj]
      exact .inl rfl
    · rw [Value.normalizeKey_string] at hkey
      exact .inr ⟨hcj.symm, Value.eq_of_normalizeKey hkey.symm⟩

/-- **One more table is made** in front of those that are made from there on. -/
lemma Makes.completes {m u : State} {part : String} {rest : List String} (hm : Makes s m c n (u.nameKey part))
    (hlt : n < Value.payloadLimit) (hc : start.table? = some c) (hin : s.heap.InUse (.table c))
    (hrest : Completes m u (fun _ _ => False) rest (.table n) v) :
    Completes s u (fun _ _ => False) (part :: rest) start v := by
  have htable : (Value.table n).table? = some n := by rw [Value.table?_table, Nat.mod_eq_of_lt hlt]
  have hne : c ≠ n := fun heq => hm.new (heq ▸ hin)
  -- what the rest leaves of the tables that were there
  have hkept : ∀ i k, s.heap.InUse (.table i) → u.heap.tableGet i k = m.heap.tableGet i k := by
    intro i k hi
    rcases hrest.kept i k ((hm.inUse i).2 (.inr hi)) with heq | ⟨hi', -⟩ | hfalse
    · exact heq
    · rw [htable, Option.some.injEq] at hi'
      exact absurd (hi' ▸ hi) hm.new
    · exact hfalse.elim
  have hentry : u.rawGet start (u.nameKey part) = .table n := by
    rw [rawGet_of_table? hc, hkept c _ hin, hm.entry]
  refine ⟨?_, ?_, fun _ => ?_, fun i k hi => ?_⟩
  · rw [walk_cons_of_not_nil, hentry, hrest.walk]
    rw [hentry]
    exact Value.isNil_of_object? (Value.object?_table hlt)
  · obtain ⟨made, hlength, hnodup, hnew, hmade⟩ := hrest.made
    refine ⟨n :: made, by simp [hlength], List.nodup_cons.2 ⟨fun hmem => ?_, hnodup⟩, fun i hi => ?_, fun i => ?_⟩
    · exact hnew n hmem ((hm.inUse n).2 (.inl rfl))
    · rcases List.mem_cons.1 hi with rfl | hi
      · exact hm.new
      · exact fun hin => hnew i hi ((hm.inUse i).2 (.inr hin))
    · rw [hmade, hm.inUse, List.mem_cons]
      tauto
  · by_cases hempty : rest = []
    · subst hempty
      have hwalk := hrest.walk
      cases hwalk
      intro k
      rw [rawGet_of_table? htable]
      rcases hrest.kept n k ((hm.inUse n).2 (.inl rfl)) with heq | ⟨-, hnone⟩ | hfalse
      · rw [heq, hm.blank]
      · cases hnone
      · exact hfalse.elim
    · exact hrest.blank hempty
  · rw [hkept i k hi]
    rcases hm.kept i k (fun heq => hm.new (heq ▸ hi)) with heq | ⟨rfl, rfl⟩
    · exact .inl heq
    · exact .inr (.inl ⟨hc, rfl⟩)

/-! ## Following the parts of a name -/

/-- **The parts of a name are followed** from a value: the walk ends at a table, which is the one that is found if no
part is left. If it is in use, the tables that are missing are made. -/
structure Follows (s u : State) (parts : List String) (start v : Value) (missing : List String) (last : Value) :
    Prop where
  walk : s.walk u.nameKey parts start = (missing, last)
  isTable : last.isTable = true
  existing : missing = [] → v = last
  completes : (∀ i, last.table? = some i → s.heap.InUse (.table i)) →
    Completes s u (fun _ _ => False) missing last v

/-- What a state has beside its tables does not matter. -/
lemma Follows.of_tables_eq {m : State} (htables : m.heap.tables = s.heap.tables)
    (hf : Follows m u parts start v missing last) : Follows s u parts start v missing last := by
  have hin : ∀ i, m.heap.InUse (.table i) ↔ s.heap.InUse (.table i) := fun i => by
    rw [Heap.InUse, Heap.InUse, htables]
  refine ⟨(walk_of_tables_eq htables parts start).symm.trans hf.walk, hf.isTable, hf.existing, fun hlast => ?_⟩
  obtain ⟨hwalk, made, hblank, hkept⟩ := hf.completes fun i hi => (hin i).2 (hlast i hi)
  simp only [hin] at made hkept
  refine ⟨hwalk, made, hblank, fun i k hi => ?_⟩
  rw [← Heap.tableGet_of_tables_eq htables]
  exact hkept i k hi

lemma table?_of_isTable (hv : v.isTable = true) : ∃ i, v.table? = some i := by
  rw [Value.table?, if_pos hv]
  exact ⟨_, rfl⟩

lemma isTable_of_table? (hv : v.table? = some i) : v.isTable = true := by
  by_contra hnot
  rw [Value.table?, if_neg hnot] at hv
  cases hv

/-- **A new table is followed.** Nothing is found from it, so that the tables of all further parts are missing. -/
lemma Follows.behind {m : State} {part : String} {rest : List String}
    (hf : Follows m u rest (.table n) v missing last) (hc : start.table? = some c) (hn : (Value.table n).table? = some n) (hlt : n < Value.payloadLimit)
    (hnil : (s.rawGet start (u.nameKey part)).isNil = true)
    (hmakes : s.heap.InUse (.table c) → Makes s m c n (u.nameKey part)) :
    Follows s u (part :: rest) start v (part :: rest) start := by
  refine ⟨walk_cons_of_nil hnil, isTable_of_table? hc, nofun, fun hstart => ?_⟩
  have hin := hstart c hc
  have hmade := hmakes hin
  have hblank : ∀ k, (m.rawGet (.table n) k).isNil = true := fun k => by
    rw [rawGet_of_table? hn, hmade.blank]
    rfl
  have hwalk := hf.walk
  rw [walk_of_blank hblank] at hwalk
  obtain ⟨rfl, rfl⟩ := Prod.mk.inj hwalk
  refine hmade.completes hlt hc hin (hf.completes fun j hj => ?_)
  rw [hn, Option.some.injEq] at hj
  exact hj ▸ (hmade.inUse n).2 (.inl rfl)

/-- What the tables in use have stays there. -/
lemma Follows.kept (hf : Follows s u parts start v missing last)
    (hlast : ∀ j, last.table? = some j → s.heap.InUse (.table j)) (hi : s.heap.InUse (.table i)) {k : Value}
    (hk : (s.heap.tableGet i k).isNil = false) : u.heap.tableGet i k = s.heap.tableGet i k := by
  rcases (hf.completes hlast).kept i k hi with heq | ⟨hi', hpart⟩ | hfalse
  · exact heq
  · -- the part that is missing has no entry
    cases missing with
    | nil => cases hpart
    | cons part rest =>
      have hnil := isNil_of_walk hf.walk
      rw [rawGet_of_table? hi', Option.some.inj hpart, hk] at hnil
      cases hnil
  · exact hfalse.elim

/-- **Finding the table of a library** leaves libraries alone, and follows the parts of the name.

**Proof sketch.** By induction on the parts. An existing table is followed. Where one is missing, the new one is empty,
so that the tables of all further parts are made, too. -/
theorem sparing_findTable (library : String) (size : ℕ) (parts : List String) {start : Value}
    (hk : s.heap.KeepsLibraries g r l) (hstart : IsOpen r l s.heap start) (hc : start.table? = some c) :
    Sparing g r l (findTable library size parts start) s fun v u =>
      IsOpen r l u.heap v ∧ (∃ i, v.table? = some i) ∧ ∃ missing last, Follows s u parts start v missing last := by
  induction parts generalizing s start c with
  | nil =>
    refine .pure hk ⟨hstart, ⟨c, hc⟩, [], start, rfl, isTable_of_table? hc, fun _ => rfl, fun _ => ?_⟩
    exact ⟨rfl, ⟨[], rfl, List.nodup_nil, nofun, by simp⟩, fun h => absurd rfl h, fun i k _ => .inl rfl⟩
  | cons part rest ih =>
    refine (Sparing.intern hk part).bind
      (fun key => .get_bind fun s => .ite ?_ (.ite (.findTable _ _ _ _) (.throw _))) ?_
    · exact (Keeps.newTable _).bind fun table => (Keeps.rawSet _ _ _).bind fun _ => .findTable _ _ _ _
    rintro _ m hsm ⟨i, rfl, hi, htables⟩
    have hkm := hsm.leaves.keeps
    have hopen := hstart.of_tables_eq htables
    have hget : ∀ k, m.rawGet start k = s.rawGet start k := fun k => by
      rw [rawGet_of_table? hc, rawGet_of_table? hc, Heap.tableGet_of_tables_eq htables]
    -- behind all of this, the part still has this key
    have hname : ∀ {u}, Comes g r l m u → u.nameKey part = .string i := fun hmu =>
      nameKey_of_holdsString hmu.leaves.keeps.regular.interning (hmu.leaves.adds.strings i _ hi)
    refine .get_bind ?_
    dsimp only
    split
    · next hnil =>
      refine Sparing.make hkm hopen hc (fun _ => .findTable _ _ _ _) fun n x hmx hn hx hin htable hmade => ?_
      refine (ih hmx.leaves.keeps hmade htable).imp fun v u hxu ⟨hv, hvi, missing, last, hf⟩ =>
        ⟨hv, hvi, part :: rest, start, ?_⟩
      have hkey := hname (hmx.trans hxu)
      have hlt := hmx.leaves.keeps.table_lt hin
      refine hf.behind hc htable hlt (by rwa [hkey, ← hget]) fun hcin => ?_
      rw [hkey]
      exact makes_newTable hkm.regular htables hcin hn hlt hx
    · next hnotNil =>
      split
      · next hisTable =>
        obtain ⟨d, hd⟩ := table?_of_isTable hisTable
        have hnext : IsOpen r l m.heap (m.rawGet start (.string i)) := by
          rw [rawGet_of_table? hc]
          exact hopen.tableGet hc _
        refine (ih hkm hnext hd).imp fun v u hmu ⟨hv, hvi, missing, last, hf⟩ => ⟨hv, hvi, missing, last, ?_⟩
        have hs := hf.of_tables_eq htables
        refine ⟨?_, hs.isTable, hs.existing, hs.completes⟩
        rw [Bool.not_eq_true, hget, ← hname hmu] at hnotNil
        rw [walk_cons_of_not_nil hnotNil, ← hs.walk, ← hname hmu, hget]
      · exact .throw hkm _

/-! ## Registering a library -/

/-- The table that is found for a library, recorded under its key. -/
def recordTable (loaded key : Value) (name : String) (size : ℕ) : Action Value := do
  let table ← findTable name size (nameParts name) (.table (← get).globals)
  rawSet loaded key table
  return table

/-- The table of a library, found or made, and recorded on first use. -/
def libraryTable (name : String) (size : ℕ) : Action Value := do
  let loaded ← loadedTable
  let key ← intern name
  let existing := (← get).rawGet loaded key
  if existing.isTable then return existing
  recordTable loaded key name size

/-- A registration puts the table of the library on top of the stack. -/
lemma registerLibrary_eq (name : String) (size : ℕ) : registerLibrary name size = (do
    let table ← libraryTable name size
    push table
    return table) := by
  simp only [registerLibrary, libraryTable, recordTable, bind_assoc]
  refine bind_congr fun loaded => bind_congr fun key => bind_congr fun s => ?_
  split
  · rw [pure_bind]
  · simp only [bind_assoc, pure_bind]

/-- **What the first registration of a name finds**: the walk along the name from the globals ends at a table, which is
the one recorded if no part is left. The tables that are missing are made, and the walk leads to the library then. -/
structure Finds (s t : State) (name : String) (v : Value) (missing : List String) (last : Value) : Prop where
  walk : s.walk t.nameKey (nameParts name) (.table s.globals) = (missing, last)
  isTable : last.isTable = true
  existing : missing = [] → v = last
  /-- The entry of the library in the table of libraries is new, too. -/
  completes : s.heap.Closed →
    Completes s t (fun i k => s.libraries.table? = some i ∧ k = t.nameKey name) missing last v
  leads : s.heap.Closed → t.walk t.nameKey (nameParts name) (.table t.globals) = ([], v)

section Register

variable (hk : s.heap.KeepsLibraries s.globals s.registry l)

include hk

/-- A library that is recorded is found there. -/
lemma libraryTable_of_recorded (hv : (s.recorded name).isNil = false) (size : ℕ) :
    libraryTable name size s = (.ok (s.recorded name), s) := by
  obtain ⟨j, hj, hget⟩ := hk.key
  have hloaded := loadedTable_of_rawGet hk.regular.interning hj
    ((rawGet_of_table? (hk.table?_table hk.registry) _).trans hget)
  obtain ⟨i, hi, hentry⟩ := (records_recorded hk hv).entry
  have hintern : intern name s = (.ok (.string i), s) := by
    rw [intern, internBytes_eq, State.onHeap, hk.regular.interning.intern_of_holdsString hi]
  have hexisting : s.rawGet (.table l) (.string i) = s.recorded name := by
    rw [rawGet_of_table? (hk.table?_table hk.libraries), hentry]
  obtain ⟨c, hc, -⟩ := hk.records_table (records_recorded hk hv)
  rw [libraryTable, bind_apply, hloaded, andThen_ok, bind_apply, hintern, andThen_ok, bind_apply, get_apply, andThen_ok,
    hexisting, isTable_of_table? hc]
  rfl

/-- What the table of libraries gets under a name does not change what was found. -/
lemma finds_of_follows (hsu : Comes s.globals s.registry l s u) (hi : u.heap.HoldsString i (Text.bytes name))
    (hv : IsOpen s.registry l u.heap v) (hc : v.table? = some c)
    (hf : Follows s u (nameParts name) (.table s.globals) v missing last) :
    Finds s { u with heap := u.heap.write l (.string i) v } name v missing last := by
  have hku := hsu.leaves.keeps
  have hglobals := hk.table?_table hk.globals
  set t : State := { u with heap := u.heap.write l (.string i) v }
  have hnames : t.nameKey = u.nameKey := rfl
  have hroot : t.globals = s.globals := hsu.globals
  have hwrite : ∀ {d} k, ¬ Heap.Reserved s.registry l d → t.heap.tableGet d k = u.heap.tableGet d k := fun k hd =>
    Heap.tableGet_write_of_ne (fun heq => hd (.inr heq.symm)) _ _ k
  -- the tables on the way from the globals are in use, and keep what they have
  have hlast : s.heap.Closed → ∀ d, last.table? = some d → s.heap.InUse (.table d) := fun hclosed d hd =>
    hclosed.found hk.globals (found_of_walk hglobals hf.walk hd)
  have hkept : s.heap.Closed → ∀ d e k, (Value.table s.globals).table? = some d →
      Relation.ReflTransGen s.heap.Holds d e → (s.heap.tableGet e k).isNil = false →
        u.heap.tableGet e k = s.heap.tableGet e k := by
    intro hclosed d e k hd hde hnil
    rw [hglobals, Option.some.injEq] at hd
    subst hd
    exact hf.kept (hlast hclosed) (hclosed.found hk.globals hde) hnil
  have hleads : s.heap.Closed → t.walk u.nameKey (nameParts name) (.table s.globals) = ([], v) := by
    intro hclosed
    have hwalk : u.walk u.nameKey (nameParts name) (.table s.globals) = ([], v) :=
      (walk_of_kept (hkept hclosed) hf.walk).trans (hf.completes (hlast hclosed)).walk
    exact walk_of_kept (fun d e k hd hde _ => hwrite k (hku.apart d e hd hde)) hwalk
  refine ⟨hf.walk, hf.isTable, hf.existing, fun hclosed => ?_, fun hclosed => hroot ▸ hleads hclosed⟩
  obtain ⟨-, made, hblank, hkept'⟩ := hf.completes (hlast hclosed)
  refine ⟨?_, ?_, fun hmissing k => ?_, fun d k hd => ?_⟩
  · rw [← hleads hclosed]
    refine (walk_of_kept (fun d e k hd hde hnil => ?_) hf.walk).symm
    rw [hwrite k (hk.apart d e hd hde), hkept hclosed d e k hd hde hnil]
  · obtain ⟨made, hlength, hnodup, hnew, hin⟩ := made
    exact ⟨made, hlength, hnodup, hnew, fun d => (Arena.inUse_modify_iff u.heap.tables l d _).trans (hin d)⟩
  · rw [rawGet_of_table? hc, hwrite k (hv.avoids.not hc), ← rawGet_of_table? hc, hblank hmissing]
  · rcases Heap.tableGet_write_cases u.heap l d (.string i) v k with heq | ⟨rfl, hkey, -⟩
    · refine (hkept' d k hd).imp (fun hsame => heq.trans hsame) (.imp_right False.elim)
    · rw [Value.normalizeKey_string] at hkey
      refine .inr (.inr ⟨?_, ?_⟩)
      · rw [libraries_eq hk, hk.table?_table hk.libraries]
      · rw [hnames, nameKey_of_holdsString hku.regular.interning hi, Value.eq_of_normalizeKey hkey.symm]

/-- Two states between which libraries have been registered: those recorded stay recorded, and nothing but the heap has
changed. -/
structure Extended (l : ℕ) (s t : State) : Prop where
  retains : Heap.Retains s.globals s.registry l s.heap t.heap
  closed : s.heap.Closed → t.heap.Closed
  rest : t = { s with heap := t.heap }

omit hk in
lemma Comes.extended (hsu : Comes s.globals s.registry l s u) : Extended l s u :=
  ⟨hsu.leaves.retains, hsu.closed, hsu.rest⟩

omit hk in
lemma keeps_spans_recordTable (loaded key : Value) (name : String) (size : ℕ) :
    Keeps Heap.Spans (recordTable loaded key name size) :=
  .get_bind fun _ => (Keeps.findTable _ _ _ _).bind fun _ => (Keeps.rawSet _ _ _).bind fun _ => .pure _

/-- **A table is found and recorded** under a name that has no table yet. -/
lemma extended_recordTable {m : State} (hsm : Comes s.globals s.registry l s m)
    (hi : m.heap.HoldsString i (Text.bytes name)) (htables : m.heap.tables = s.heap.tables)
    (hnil : (m.heap.tableGet l (.string i)).isNil = true) (size : ℕ)
    (hfits : (recordTable (.table l) (.string i) name size m).2.heap.Fits) :
    Extended l s (recordTable (.table l) (.string i) name size m).2 ∧
    ∀ v, (recordTable (.table l) (.string i) name size m).1 = .ok v →
      (recordTable (.table l) (.string i) name size m).2.heap.Records l name v ∧
      ∃ missing last, Finds s (recordTable (.table l) (.string i) name size m).2 name v missing last := by
  have hkm := hsm.leaves.keeps
  have hopen : IsOpen s.registry l m.heap (.table s.globals) := by
    refine ⟨hkm.apart, fun _ d hd => ?_⟩
    rw [hkm.table?_table hkm.globals, Option.some.injEq] at hd
    exact hd ▸ hkm.globals
  have hrun : recordTable (.table l) (.string i) name size m =
      andThen (findTable name size (nameParts name) (.table s.globals) m)
        fun v => rawSet (.table l) (.string i) v >>= fun _ => pure v := by
    rw [recordTable, bind_apply, get_apply, andThen_ok, bind_apply, hsm.globals]
  have hfound := sparing_findTable name size (nameParts name) hkm hopen (hkm.table?_table hkm.globals)
  unfold Sparing at hfound
  rw [hrun] at hfits ⊢
  rcases hfind : findTable name size (nameParts name) (.table s.globals) m with ⟨e | v, u⟩ <;>
    rw [hfind] at hfits hfound
  · exact ⟨(hsm.trans (hfound hfits).1).extended, nofun⟩
  rw [andThen_ok] at hfits ⊢
  dsimp only at hfound
  have hspans : Keeps Heap.Spans (rawSet (.table l) (.string i) v >>= fun _ => pure v) :=
    (Keeps.rawSet _ _ _).bind fun _ => .pure v
  obtain ⟨hmu, hpost⟩ := hfound ((hspans u).fits hfits)
  obtain ⟨hv, ⟨c, hc⟩, missing, last, hf⟩ := hpost v rfl
  have hsu := hsm.trans hmu
  have hku := hsu.leaves.keeps
  have hiu := hmu.leaves.adds.strings i _ hi
  have hwrite : rawSet (.table l) (.string i) v u = (.ok (), { u with heap := u.heap.write l (.string i) v }) :=
    rawSet_of_lt (isKey_string i) (hku.table?_table hku.libraries) hku.libraries.lt_size
  obtain ⟨hretains, hentry⟩ := hku.record hiu (hmu.leaves.libraries _ ▸ hnil) hc hv.avoids
  rw [bind_apply, hwrite, andThen_ok, pure_apply]
  refine ⟨⟨hsu.leaves.retains.trans hretains, fun hclosed => ?_, ?_⟩, fun w hw => ?_⟩
  · exact (hsu.closed hclosed).write (hv.inUse (hsu.closed hclosed)) l _
  · rw [hsu.rest]
  · cases hw
    exact ⟨⟨Value.isNil_of_object? (Value.object?_of_table? hc), i, ⟨hiu.inUse, hiu.content⟩, hentry⟩,
      missing, last, finds_of_follows hk hsu hiu hv hc (hf.of_tables_eq htables)⟩

/-- Behind the search for a name that is not recorded, its table is found and recorded. -/
lemma libraryTable_of_new (hnew : (s.recorded name).isNil = true) (size : ℕ)
    (hfits : (libraryTable name size s).2.heap.Fits) :
    ∃ i m, Comes s.globals s.registry l s m ∧ m.heap.HoldsString i (Text.bytes name) ∧
      m.heap.tables = s.heap.tables ∧ (m.heap.tableGet l (.string i)).isNil = true ∧
      libraryTable name size s = recordTable (.table l) (.string i) name size m := by
  obtain ⟨j, hj, hget⟩ := hk.key
  have hloaded := loadedTable_of_rawGet hk.regular.interning hj
    ((rawGet_of_table? (hk.table?_table hk.registry) _).trans hget)
  obtain ⟨key, m, hintern⟩ : ∃ key m, intern name s = (.ok key, m) := ⟨_, _, rfl⟩
  have hrun : libraryTable name size s =
      if (m.rawGet (.table l) key).isTable then (.ok (m.rawGet (.table l) key), m)
      else recordTable (.table l) key name size m := by
    rw [libraryTable, bind_apply, hloaded, andThen_ok, bind_apply, hintern, andThen_ok, bind_apply, get_apply,
      andThen_ok]
    split <;> rfl
  have hfitsm : m.heap.Fits := by
    refine Heap.Spans.fits ?_ hfits
    rw [hrun]
    split
    · exact .refl _
    · exact keeps_spans_recordTable _ _ _ _ m
  have hsparing := Sparing.intern hk name
  unfold Sparing at hsparing
  rw [hintern] at hsparing
  obtain ⟨hsm, hpost⟩ := hsparing hfitsm
  obtain ⟨i, rfl, hi, htables⟩ := hpost key rfl
  have hkm := hsm.leaves.keeps
  have hnil : (m.heap.tableGet l (.string i)).isNil = true := by
    by_contra hsome
    rw [Bool.not_eq_true] at hsome
    have hrecords := hk.records_of_leaves hsm.leaves ⟨hsome, i, hi, rfl⟩
    rw [recorded_of_records hk hrecords, hsome] at hnew
    cases hnew
  refine ⟨i, m, hsm, hi, htables, hnil, hrun.trans (if_neg fun htable => ?_)⟩
  obtain ⟨c, hc⟩ := table?_of_isTable htable
  rw [rawGet_of_table? (hkm.table?_table hkm.libraries)] at hc
  rw [Value.isNil_of_object? (Value.object?_of_table? hc)] at hnil
  cases hnil

variable (name) in
/-- What is known of the table of a library before it is put on the stack. -/
lemma extended_libraryTable (size : ℕ) (hfits : (libraryTable name size s).2.heap.Fits) :
    Extended l s (libraryTable name size s).2 ∧ ∀ v, (libraryTable name size s).1 = .ok v →
      (libraryTable name size s).2.heap.Records l name v ∧
      ((s.recorded name).isNil = false → v = s.recorded name ∧ (libraryTable name size s).2 = s) ∧
      ((s.recorded name).isNil = true →
        ∃ missing last, Finds s (libraryTable name size s).2 name v missing last) := by
  cases hnil : (s.recorded name).isNil with
  | false =>
    rw [libraryTable_of_recorded hk hnil]
    refine ⟨(Comes.refl hk).extended, fun v hv => ?_⟩
    cases hv
    exact ⟨records_recorded hk hnil, fun _ => ⟨rfl, rfl⟩, nofun⟩
  | true =>
    obtain ⟨i, m, hsm, hi, htables, hnew, hrun⟩ := libraryTable_of_new hk hnil size hfits
    rw [hrun] at hfits ⊢
    obtain ⟨hextended, hpost⟩ := extended_recordTable hk hsm hi htables hnew size hfits
    exact ⟨hextended, fun v hv => ⟨(hpost v hv).1, nofun, fun _ => (hpost v hv).2⟩⟩

/-- **What a registration that succeeds has done**: the table is recorded under the name, and left on top of the stack.
If there was one recorded before, it is this one, and the heap is as it was. Otherwise it has been found by walking
along the name. -/
structure Registered (s t : State) (name : String) (v : Value) : Prop where
  isTable : v.isTable = true
  recorded : t.recorded name = v
  top : t.top = s.top + 1
  onTop : t.stack.get s.top = v
  again : (s.recorded name).isNil = false → v = s.recorded name ∧ t.heap = s.heap
  first : (s.recorded name).isNil = true → ∃ missing last, Finds s t name v missing last

/-- Libraries are retained between two states with the same globals and registry. -/
structure Passes (l : ℕ) (s t : State) : Prop where
  retains : Heap.Retains s.globals s.registry l s.heap t.heap
  globals : t.globals = s.globals
  registry : t.registry = s.registry

omit hk in
lemma Extended.top (h : Extended l s t) : t.top = s.top := by rw [h.rest]

omit hk in
lemma Extended.passes (h : Extended l s t) : Passes l s t :=
  ⟨h.retains, by rw [h.rest], by rw [h.rest]⟩

omit hk in
lemma Passes.trans (hst : Passes l s t) (htu : Passes l t u) : Passes l s u := by
  refine ⟨hst.retains.trans ?_, htu.globals.trans hst.globals, htu.registry.trans hst.registry⟩
  rw [← hst.globals, ← hst.registry]
  exact htu.retains

omit hk in
lemma Passes.keeps (h : Passes l s t) : t.heap.KeepsLibraries t.globals t.registry l :=
  h.globals ▸ h.registry ▸ h.retains.keeps

omit hk in
/-- The stack does not matter for what has been found. -/
lemma Finds.withStack (hf : Finds s t name v missing last) (stack : Slots) (n : ℕ) :
    Finds s ((t.withStack stack).withTop n) name v missing last := by
  have hwalk : ∀ parts w, ((t.withStack stack).withTop n).walk t.nameKey parts w = t.walk t.nameKey parts w :=
    walk_of_tables_eq (s := t) (t := (t.withStack stack).withTop n) rfl
  refine ⟨hf.walk, hf.isTable, hf.existing, fun hclosed => ?_, fun hclosed => (hwalk _ _).trans (hf.leads hclosed)⟩
  obtain ⟨hw, hmade, hblank, hkept⟩ := hf.completes hclosed
  exact ⟨(hwalk _ _).trans hw, hmade, hblank, hkept⟩

/-- A name that is recorded is answered with its table. -/
lemma registerLibrary_of_recorded (hv : (s.recorded name).isNil = false) (size : ℕ) :
    registerLibrary name size s = (do
      push (s.recorded name)
      return s.recorded name) s := by
  rw [registerLibrary_eq, bind_apply, libraryTable_of_recorded hk hv, andThen_ok]

variable (name) in
/-- **Registering a library**: what is recorded stays so, and if the registration succeeds, the name is recorded too.

**Proof sketch.** A name that is recorded is looked up, and a new one is followed from the globals. The table that is
found is not reserved, since the reserved ones are not found from the globals, so that it can be recorded. -/
theorem registered_registerLibrary (size : ℕ) (hfits : (registerLibrary name size s).2.heap.Fits) :
    Passes l s (registerLibrary name size s).2 ∧
    (s.heap.Closed → (registerLibrary name size s).2.heap.Closed) ∧
    ∀ v, (registerLibrary name size s).1 = .ok v →
      (registerLibrary name size s).2.heap.Records l name v ∧ Registered s (registerLibrary name size s).2 name v := by
  have hrun : registerLibrary name size s =
      andThen (libraryTable name size s) fun v => push v >>= fun _ => pure v := by
    rw [registerLibrary_eq, bind_apply]
  have hlibrary := extended_libraryTable name hk size
  rw [hrun] at hfits ⊢
  rcases hlib : libraryTable name size s with ⟨e | v, u⟩ <;> rw [hlib] at hfits hlibrary
  · obtain ⟨hextended, -⟩ := hlibrary hfits
    exact ⟨hextended.passes, hextended.closed, nofun⟩
  rw [andThen_ok, bind_apply, push_apply] at hfits ⊢
  split at hfits
  · next hfull =>
    obtain ⟨hextended, -⟩ := hlibrary hfits
    rw [if_pos hfull]
    exact ⟨hextended.passes, hextended.closed, nofun⟩
  · next hroom =>
    obtain ⟨hextended, hpost⟩ := hlibrary hfits
    obtain ⟨hrecords, hagain, hfirst⟩ := hpost v rfl
    rw [if_neg hroom]
    have hpasses : Passes l s ((u.withStack (u.stack.set u.top v)).withTop (u.top + 1)) :=
      ⟨hextended.passes.retains, hextended.passes.globals, hextended.passes.registry⟩
    have htop : u.top = s.top := hextended.top
    refine ⟨hpasses, hextended.closed, fun w hw => ?_⟩
    cases hw
    obtain ⟨c, hc, -⟩ := hpasses.keeps.records_table hrecords
    refine ⟨hrecords, isTable_of_table? hc, recorded_of_records hpasses.keeps hrecords, ?_, ?_, fun hnil => ?_,
      fun hnil => ?_⟩
    · exact congrArg (· + 1) htop
    · change (u.stack.set u.top v).get s.top = v
      rw [Slots.get_set, if_pos ⟨htop, by omega⟩]
    · obtain ⟨heq, hsame⟩ := hagain hnil
      have hheap : u.heap = s.heap := congrArg State.heap hsame
      exact ⟨heq, hheap⟩
    · obtain ⟨missing, last, hf⟩ := hfirst hnil
      exact ⟨missing, last, hf.withStack _ _⟩

end Register

end ScriptCore.State
