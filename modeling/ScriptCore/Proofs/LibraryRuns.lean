import ScriptCore.Proofs.LibraryPaths
import ScriptCore.Proofs.Routines

set_option relaxedAutoImplicit false
set_option autoImplicit false

/-!
# One table for each library

A host registers libraries on a new machine, whatever their names, and in between globals and tables are written and
garbage is collected. As long as nobody writes to the registry or to the table of libraries, or lets the globals lead
there, each name has one table for the whole run: the one it is recorded with.

## Main definitions

* `ScriptCore.State.Sheltered` — the globals do not lead to the registry or to the table of libraries.
* `ScriptCore.LibraryStep`, `ScriptCore.LibraryRun` — runs, with the registrations that have succeeded.
* `ScriptCore.Machine.OneTable` — each name has one table.

## Main results

* `ScriptCore.LibraryStep.passes` — what one step does.
* `ScriptCore.oneTable_of_run` — what holds behind every run.
-/

namespace ScriptCore

variable {σ : Type} {enter : HostProgram σ → MachineM σ Nat} {writes : State → Value → Prop} {l c : ℕ}
  {name : String} {v table : Value} {s t u : State} {m n : Machine σ} {history registered : List (String × Value)}
  {functions : List (String × HostProgram σ)}

/-! ## A new machine -/

namespace State

lemma tableGet_seedHeap (i : ℕ) (key : Value) : seedHeap.tableGet i key = .nil := by
  rw [Heap.tableGet]
  rcases ht : seedHeap.tables.get? i with _ | t
  · rfl
  · have hlt : i < 3 := Arena.lt_size_of_get? ht
    have hempty : t = .empty := by interval_cases i <;> exact (Option.some.inj ht).symm
    rw [hempty]
    exact Std.HashMap.getD_empty

/-- **A new machine keeps libraries**, and has none. -/
lemma keepsLibraries_new :
    State.new.heap.KeepsLibraries State.new.globals State.new.registry 2 ∧ State.new.heap.Closed := by
  obtain ⟨i, hi, hnew⟩ := tables_new
  have hin : ∀ j < 3, State.new.heap.InUse (.table j) := by
    intro j hj
    rw [Heap.InUse, hnew, Arena.inUse_modify_iff]
    exact ⟨hj, rfl⟩
  have hget : ∀ j key, State.new.heap.tableGet j key =
      if 1 = j ∧ j < 3 ∧ (Value.string i).normalizeKey = key.normalizeKey then .table 2 else .nil := by
    intro j key
    have hwrite : State.new.heap.tableGet j key = (seedHeap.write 1 (.string i) (.table 2)).tableGet j key :=
      Heap.tableGet_of_tables_eq hnew j key
    rw [hwrite, Heap.tableGet_write, Value.isNil_of_object? (Value.object?_table (by decide)), tableGet_seedHeap]
    rfl
  have hblank : ∀ j, 1 ≠ j → ∀ key, State.new.heap.tableGet j key = .nil := fun j hj key => by
    rw [hget, if_neg fun hall => hj hall.1]
  have htable : ∀ j < 3, (Value.table j).table? = some j := fun j hj => by
    rw [Value.table?_table, Nat.mod_eq_of_lt (hj.trans (by decide))]
  have horderly := sound_new.heap.orderly
  refine ⟨⟨⟨horderly.wellFormed, horderly.interning, horderly.unmarked, hasAtMost_new.fits (by decide)⟩,
    hin 0 (by decide), hin 1 (by decide), hin 2 (by decide), by decide, ⟨i, hi, ?_⟩, fun key hkey => ?_,
    Heap.avoids_of_blank (hblank 0 (by decide)) (htable 0 (by decide)) ?_⟩, fun a b _ hab => ?_⟩
  · exact (hget 1 _).trans (if_pos ⟨rfl, by decide, rfl⟩)
  · rw [hblank 2 (by decide)] at hkey
    cases hkey
  · rintro (heq | heq) <;> cases heq
  · -- the registry holds the table of libraries, and nothing else is held
    obtain ⟨key, hkey⟩ := hab
    rw [hget] at hkey
    split at hkey
    · rw [htable 2 (by decide), Option.some.injEq] at hkey
      exact hkey ▸ hin 2 (by decide)
    · rw [Value.isPlain_nil.table?] at hkey
      cases hkey

/-- A collection takes place, or nothing. -/
lemma maybeCollect_cases (s : State) : (maybeCollect s).2 = s ∨ (maybeCollect s).2 = s.collect := by
  rw [maybeCollect, modifyGet_apply]
  split
  · exact .inr rfl
  · exact .inl rfl

end State

/-! ## Setting globals -/

namespace State

/-- Setting a global makes its name and writes to the globals. -/
lemma setGlobal_cases (name : String) (value : Value) (s : State) : ∃ key m, intern name s = (.ok key, m) ∧
    setGlobal name value s = rawSet (.table m.globals) key value m := by
  obtain ⟨key, m, hintern⟩ : ∃ key m, intern name s = (.ok key, m) := ⟨_, _, rfl⟩
  refine ⟨key, m, hintern, ?_⟩
  rw [setGlobal, bind_apply, hintern, andThen_ok, bind_apply, get_apply, andThen_ok]

/-- A global is not on the stack. -/
lemma top_setGlobal (name : String) (value : Value) (s : State) : (setGlobal name value s).2.top = s.top := by
  obtain ⟨key, m, hintern, hrun⟩ := setGlobal_cases name value s
  have htop : m.top = s.top := by rw [show m = (intern name s).2 by rw [hintern]]; rfl
  rw [hrun]
  rcases rawSet_cases (.table m.globals) key value m with ⟨e, heq⟩ | ⟨i, -, -, heq⟩ <;> rw [heq] <;> exact htop

end State

/-! ## How much is made -/

namespace Heap

variable {k j n : ℕ} {h h' : Heap}

/-- At most `k` entries are made between two heaps. -/
def Allots (k : ℕ) (h h' : Heap) : Prop := ∀ n, h.HasAtMost n → h'.HasAtMost (n + k)

lemma Allots.mono (hg : Allots j h h') (hle : j ≤ k) : Allots k h h' := fun n hn o ho =>
  (hg n hn o ho).trans_le (Nat.add_le_add_left hle n)

lemma allots_refl (h : Heap) (k : ℕ) : Allots k h h := fun n hn o ho => (hn o ho).trans_le (Nat.le_add_right n k)

lemma allots_write (h : Heap) (i : ℕ) (key value : Value) : Allots 0 h (h.write i key value) := by
  intro n hn o ho
  refine hn o ?_
  cases o with
  | table j =>
    change j < (h.tables.modify i _).items.size at ho
    rwa [Arena.size_modify] at ho
  | string j | userdata j | env j => exact ho

end Heap

namespace State

open Heap (Allots)

variable {α β : Type} {j k : ℕ}

lemma Keeps.allots_bind {x : Action α} {f : α → Action β} (hx : Keeps (Allots j) x) (hf : ∀ a, Keeps (Allots k) (f a)) :
    Keeps (Allots (j + k)) (x >>= f) := by
  intro s n hn
  have hs := hx s n hn
  rw [bind_apply]
  rcases hxs : x s with ⟨e | a, t⟩ <;> rw [hxs] at hs
  · exact fun o ho => (hs o ho).trans_le (by omega)
  · rw [← Nat.add_assoc]
    exact hf a t _ hs

lemma allots_pure (a : α) : Keeps (Allots k) (pure a : Action α) := fun s => Heap.allots_refl s.heap k

lemma allots_intern (name : String) : Keeps (Allots 1) (intern name) := fun _ _ hn => hn.intern _

lemma allots_newTable (size : ℕ) : Keeps (Allots 1) (newTable size) := fun _ _ hn => hn.newTable size

lemma allots_rawSet (table key value : Value) : Keeps (Allots 0) (rawSet table key value) := by
  intro s
  rcases rawSet_cases table key value s with ⟨e, heq⟩ | ⟨i, -, -, heq⟩ <;> rw [heq]
  · exact Heap.allots_refl s.heap 0
  · exact Heap.allots_write s.heap i key value

/-- A string and a table are made at most for each part of a name. -/
lemma allots_findTable (library : String) (size : ℕ) (parts : List String) (start : Value) :
    Keeps (Allots (2 * parts.length)) (findTable library size parts start) := by
  induction parts generalizing start with
  | nil => exact allots_pure _
  | cons part rest ih =>
    have hmake : ∀ key, Keeps (Allots (1 + (0 + 2 * rest.length))) (do
        let table ← newTable (if rest.isEmpty then size else 1)
        rawSet start key table
        findTable library size rest table) := fun key =>
      (allots_newTable _).allots_bind fun table => (allots_rawSet start key table).allots_bind fun _ => ih table
    have hfollow : ∀ s : State, ∀ key, Keeps (Allots (1 + (0 + 2 * rest.length)))
        (if (s.rawGet start key).isTable then findTable library size rest (s.rawGet start key)
        else throw (.nameConflict library)) := fun s key =>
      .ite (fun t => (ih _ t).mono (by omega)) fun t => Heap.allots_refl t.heap _
    have hall := (allots_intern part).allots_bind fun key =>
      Keeps.get_bind fun s => Keeps.ite (c := (s.rawGet start key).isNil) (hmake key) (hfollow s key)
    refine fun s => (hall s).mono ?_
    rw [List.length_cons]
    omega

lemma allots_loadedTable : Keeps (Allots 3) loadedTable := by
  have hread : Keeps (Allots (1 + 0)) (registryGet loadedKey) :=
    (allots_intern loadedKey).allots_bind fun _ => .get_bind fun _ => allots_pure _
  have hmake : Keeps (Allots (1 + (1 + (0 + 0)))) (do
      let loaded ← newTable 16
      let key ← intern loadedKey
      rawSet (.table (← get).registry) key loaded
      return loaded) :=
    (allots_newTable 16).allots_bind fun _ => (allots_intern loadedKey).allots_bind fun _ => .get_bind fun _ =>
      (allots_rawSet _ _ _).allots_bind fun _ => allots_pure _
  exact hread.allots_bind fun _ => .ite (allots_pure _) hmake

/-- **How many entries a registration makes** at most. -/
lemma allots_registerLibrary (name : String) (size : ℕ) :
    Keeps (Allots (4 + 2 * (nameParts name).length)) (registerLibrary name size) := by
  have hrecord : ∀ loaded key, Keeps (Allots (2 * (nameParts name).length + (0 + 0)))
      (recordTable loaded key name size) := fun loaded key =>
    .get_bind fun s => (allots_findTable name size _ _).allots_bind fun table =>
      (allots_rawSet loaded key table).allots_bind fun _ => allots_pure table
  have hlibrary : Keeps (Allots (3 + (1 + (2 * (nameParts name).length + (0 + 0))))) (libraryTable name size) :=
    allots_loadedTable.allots_bind fun loaded => (allots_intern name).allots_bind fun key => .get_bind fun _ =>
      .ite (allots_pure _) (hrecord loaded key)
  have hpush : ∀ v, Keeps (Allots 0) (push v) := fun v s n hn => hasAtMost_push v hn
  rw [registerLibrary_eq]
  refine fun s => (hlibrary.allots_bind (k := 0 + 0) (fun v => (hpush v).allots_bind fun _ => allots_pure v) s).mono ?_
  omega

lemma allots_setGlobal (name : String) (value : Value) : Keeps (Allots 1) (setGlobal name value) :=
  fun s => ((allots_intern name).allots_bind fun _ => .get_bind fun _ => allots_rawSet _ _ _) s

end State

/-! ## Defining a library -/

namespace Routine

/-- Makes one of the functions of a library and stores it in the table of the library. -/
def store (table : Value) (name : String) (function : String × HostProgram σ) (_ : Unit) :
    Routine σ (ForInStep Unit) := do
  let f ← define (name ++ "." ++ function.1) function.2 #[]
  let k ← intern function.1
  ask (.rawSet table k f)
  return .yield ()

lemma defineLibrary_eq (name : String) (functions : List (String × HostProgram σ)) :
    defineLibrary name functions = (do
      let table ← ask (.registerLibrary name functions.length)
      forIn functions () (store table name)
      return table) := rfl

/-- **Functions have been stored** between two states: libraries are left alone, and so is the stack. -/
structure Stores (l : ℕ) (s u : State) : Prop where
  leaves : s.heap.Leaves s.globals s.registry l u.heap
  closed : s.heap.Closed → u.heap.Closed
  globals : u.globals = s.globals
  registry : u.registry = s.registry
  top : u.top = s.top
  stack : u.stack = s.stack

lemma Stores.refl (hk : s.heap.KeepsLibraries s.globals s.registry l) : Stores l s s :=
  ⟨hk.refl, id, rfl, rfl, rfl, rfl⟩

lemma Stores.keeps (h : Stores l s u) : u.heap.KeepsLibraries u.globals u.registry l := by
  rw [h.globals, h.registry]
  exact h.leaves.keeps

lemma Stores.passes (h : Stores l s u) : State.Passes l s u := ⟨h.leaves.retains, h.globals, h.registry⟩

lemma Stores.trans (hst : Stores l s t) (htu : Stores l t u) : Stores l s u := by
  refine ⟨hst.leaves.trans ?_, htu.closed ∘ hst.closed, htu.globals.trans hst.globals, htu.registry.trans hst.registry,
    htu.top.trans hst.top, htu.stack.trans hst.stack⟩
  rw [← hst.globals, ← hst.registry]
  exact htu.leaves

/-- What is stored keeps libraries where they were, if there are handles for all entries in the end. -/
structure Storing (l : ℕ) (table : Value) (m n : Machine σ) : Prop where
  spans : m.state.heap.Spans n.state.heap
  stores : n.state.heap.Fits → m.state.heap.KeepsLibraries m.state.globals m.state.registry l →
    (∀ i, table.table? = some i → ¬ Heap.Reserved m.state.registry l i) → Stores l m.state n.state

lemma Storing.trans {k : Machine σ} (hmn : Storing l table m n) (hnk : Storing l table n k) : Storing l table m k := by
  refine ⟨hmn.spans.trans hnk.spans, fun hfits hkeeps hc => ?_⟩
  have hstores := hmn.stores (hnk.spans.fits hfits) hkeeps hc
  exact hstores.trans (hnk.stores hfits hstores.keeps (hstores.registry ▸ hc))

/-- A function refers to no table. -/
lemma table?_function (i : ℕ) : (Value.function i).table? = none := by
  rw [Value.table?, Value.isTable, Value.function, Value.tag_box (by decide)]
  rfl

variable (enter l name) in
/-- One function is stored. -/
lemma exists_ends_store (table : Value) (function : String × HostProgram σ) (m : Machine σ) :
    ∃ r n, Ends enter (store table name function ()) m r n ∧ Storing l table m n := by
  obtain ⟨key, body⟩ := function
  let k := m.addFunction (name ++ "." ++ key) body #[]
  let f := Value.function m.state.natives.size
  let a : Action (ForInStep Unit) := do
    let k ← State.intern key
    State.rawSet table k f
    return .yield ()
  have hperforms : Performs enter (do
      let k ← intern key
      ask (.rawSet table k f)
      return ForInStep.yield () : Routine σ (ForInStep Unit)) a :=
    (performs_ask (.intern (Text.bytes key))).bind fun k =>
      (performs_ask (.rawSet table k f)).bind fun _ => performs_pure _
  have hspans : State.Keeps Heap.Spans a :=
    (State.Keeps.intern _).bind fun _ => (State.Keeps.rawSet _ _ _).bind fun _ => .pure _
  refine ⟨_, _, (ends_define _ _ _).bind (hperforms k), hspans k.state, fun hfits hk hr => ?_⟩
  have hopen : ∀ {u : State}, State.IsOpen m.state.registry l u.heap f := fun {u} =>
    ⟨Heap.avoids_of_table? (table?_function _), fun _ i hi => by
      rw [table?_function] at hi
      cases hi⟩
  have hsparing : State.Sparing m.state.globals m.state.registry l a k.state fun _ _ => True := by
    refine (State.Sparing.intern (s := k.state) hk key).bind
      (fun _ => (State.Keeps.rawSet _ _ _).bind fun _ => .pure _) fun k u hu _ => ?_
    exact (State.Sparing.rawSet hu.leaves.keeps hr hopen).bind (fun _ => .pure _)
      fun _ w hw _ => .pure hw.leaves.keeps trivial
  obtain ⟨hcomes, -⟩ := hsparing hfits
  exact ⟨hcomes.leaves, hcomes.closed, hcomes.globals, hcomes.registry, hcomes.top, hcomes.stack⟩

variable (enter l name) in
/-- **All functions are stored.** -/
lemma exists_ends_forIn (table : Value) (functions : List (String × HostProgram σ)) (m : Machine σ) :
    ∃ r n, Ends enter (forIn functions () (store table name)) m r n ∧ Storing l table m n := by
  induction functions generalizing m with
  | nil => exact ⟨.ok (), m, ends_pure _, .refl _, fun _ hk _ => .refl hk⟩
  | cons function functions ih =>
    obtain ⟨r, n, hstore, hmn⟩ := exists_ends_store enter l name table function m
    rw [List.forIn_cons]
    rcases r with e | (b | b)
    · exact ⟨_, n, hstore.bind_error, hmn⟩
    · exact ⟨_, n, hstore.bind (ends_pure b), hmn⟩
    · obtain ⟨r, k, hrest, hnk⟩ := ih n
      exact ⟨r, k, hstore.bind hrest, hmn.trans hnk⟩

/-- **Defining a library**: its table is registered, and filled. -/
theorem passes_defineLibrary (hk : m.state.heap.KeepsLibraries m.state.globals m.state.registry l)
    {r : Except RuntimeError Value} (hends : Ends enter (defineLibrary name functions) m r n)
    (hfits : n.state.heap.Fits) :
    State.Passes l m.state n.state ∧ (m.state.heap.Closed → n.state.heap.Closed) ∧
    ∀ v, r = .ok v → n.state.heap.Records l name v ∧ ∃ t,
      State.registerLibrary name functions.length m.state = (.ok v, t) ∧ State.Registered m.state t name v ∧
      Stores l t n.state := by
  have hregister : Ends enter (ask (.registerLibrary name functions.length)) m
      (State.registerLibrary name functions.length m.state).1
      (m.withState (State.registerLibrary name functions.length m.state).2) := performs_ask _ m
  have hregistered := State.registered_registerLibrary name hk functions.length
  rw [defineLibrary_eq] at hends
  rcases hrun : State.registerLibrary name functions.length m.state with ⟨e | v, u⟩ <;>
    rw [hrun] at hregister hregistered
  · obtain ⟨rfl, rfl⟩ := hends.unique hregister.bind_error
    obtain ⟨hpasses, hclosed, -⟩ := hregistered hfits
    exact ⟨hpasses, hclosed, nofun⟩
  obtain ⟨r', k, hfill, hstoring⟩ := exists_ends_forIn enter l name v functions (m.withState u)
  have hrest := hregister.rest hends
  -- whether or not all functions are stored, the machine is the one behind the last of them
  have hend : n = k ∧ ∀ w, r = .ok w → w = v := by
    rcases r' with e | b
    · obtain ⟨rfl, rfl⟩ := hrest.unique hfill.bind_error
      exact ⟨rfl, nofun⟩
    · obtain ⟨rfl, rfl⟩ := hrest.unique (hfill.bind (ends_pure v))
      exact ⟨rfl, fun w hw => (Except.ok.inj hw).symm⟩
  obtain ⟨rfl, hresult⟩ := hend
  obtain ⟨hpasses, hclosed, hpost⟩ := hregistered (hstoring.spans.fits hfits)
  obtain ⟨hrecords, hdone⟩ := hpost v rfl
  have hstores := hstoring.stores hfits hpasses.keeps fun i hi => by
    obtain ⟨c, hc, hr⟩ := hpasses.keeps.records_table hrecords
    rw [hi, Option.some.injEq] at hc
    exact hc ▸ hr
  refine ⟨hpasses.trans hstores.passes, hstores.closed ∘ hclosed, fun w hw => ?_⟩
  obtain rfl := hresult w hw
  exact ⟨hstores.leaves.retains.records name w hrecords, u, rfl, hdone, hstores⟩

end Routine

/-! ## Runs -/

namespace State

/-- The registry and the table of libraries of a state. -/
def IsReserved (s : State) (i : ℕ) : Prop := i = s.registry ∨ s.libraries.table? = some i

/-- **The globals do not lead to the registry or to the table of libraries**: neither is found from the globals by
going from tables to the values of their keys. -/
def Sheltered (s : State) : Prop := s.heap.Avoids s.IsReserved (.table s.globals)

end State

/-- The registration of a name, if it has succeeded. -/
def registration (name : String) : Except RuntimeError Value → List (String × Value)
  | .ok v => [(name, v)]
  | .error _ => []

/-- **One step of a run**, with the registration it makes, if there is one. Globals and tables are written as the host
likes, but not the registry or the table of libraries, and so that the globals do not lead there; the values are those
that `writes` allows. -/
inductive LibraryStep (enter : HostProgram σ → MachineM σ Nat) (writes : State → Value → Prop) :
    Machine σ → List (String × Value) → Machine σ → Prop
  | register (m : Machine σ) (name : String) (size : ℕ) :
    LibraryStep enter writes m (registration name (State.registerLibrary name size m.state).1)
      (m.withState (State.registerLibrary name size m.state).2)
  | define {m n : Machine σ} {name : String} {functions : List (String × HostProgram σ)}
    {r : Except RuntimeError Value} (h : Routine.Ends enter (Routine.defineLibrary name functions) m r n) :
    LibraryStep enter writes m (registration name r) n
  | setGlobal {m : Machine σ} {name : String} {value : Value} (hvalue : writes m.state value)
    (h : (State.setGlobal name value m.state).2.Sheltered) :
    LibraryStep enter writes m [] (m.withState (State.setGlobal name value m.state).2)
  | rawSet {m : Machine σ} {table key value : Value} (hvalue : writes m.state value)
    (htable : ∀ i, table.table? = some i → ¬ m.state.IsReserved i)
    (h : (State.rawSet table key value m.state).2.Sheltered) :
    LibraryStep enter writes m [] (m.withState (State.rawSet table key value m.state).2)
  | collect (m : Machine σ) : LibraryStep enter writes m [] (m.withState m.state.collect)
  | maybeCollect (m : Machine σ) : LibraryStep enter writes m [] (m.withState (State.maybeCollect m.state).2)
  | newTable (m : Machine σ) (size : ℕ) : LibraryStep enter writes m [] (m.withState (State.newTable size m.state).2)
  | internBytes (m : Machine σ) (content : List UInt8) :
    LibraryStep enter writes m [] (m.withState (State.internBytes content m.state).2)
  /-- Whatever else is done to the stack, the frames, the functions and the host. -/
  | elsewhere {m n : Machine σ} (hheap : n.state.heap = m.state.heap) (hglobals : n.state.globals = m.state.globals)
    (hregistry : n.state.registry = m.state.registry) : LibraryStep enter writes m [] n

/-- **A run on a new machine**, with the names and tables of all registrations that have succeeded. There are handles
for all entries of the heap. -/
inductive LibraryRun (enter : HostProgram σ → MachineM σ Nat) (writes : State → Value → Prop) :
    List (String × Value) → Machine σ → Prop
  | start (host : σ) : LibraryRun enter writes [] (.new host)
  | step {history registered : List (String × Value)} {m n : Machine σ} (hrun : LibraryRun enter writes history m)
    (hstep : LibraryStep enter writes m registered n) (hfits : n.state.heap.Fits) :
    LibraryRun enter writes (history ++ registered) n

/-- **Each name has one table**, behind a run with the given registrations. -/
structure Machine.OneTable (enter : HostProgram σ → MachineM σ Nat) (history : List (String × Value)) (m : Machine σ) :
    Prop where
  /-- All registrations of a name have given the same table. -/
  unique : ∀ name v w, (name, v) ∈ history → (name, w) ∈ history → v = w
  /-- It is the one that is recorded. -/
  recorded : ∀ name v, (name, v) ∈ history → v.isTable = true ∧ m.state.recorded name = v
  /-- What is recorded is the answer, whatever the globals are, as long as there is room on the stack. -/
  answer : ∀ name size, (m.state.recorded name).isNil = false →
    State.registerLibrary name size m.state = (do
      State.push (m.state.recorded name)
      return m.state.recorded name) m.state
  /-- A registration that succeeds gives the table that is recorded, or finds it along the name. -/
  register : ∀ name size v t, State.registerLibrary name size m.state = (.ok v, t) → t.heap.Fits →
    State.Registered m.state t name v
  /-- So does the definition of a library, which fills the table then. -/
  define : ∀ name functions v n, Routine.Ends enter (Routine.defineLibrary name functions) m (.ok v) n →
    n.state.heap.Fits → n.state.recorded name = v ∧ ∃ t,
      State.registerLibrary name functions.length m.state = (.ok v, t) ∧ State.Registered m.state t name v ∧
      n.state.top = t.top ∧ n.state.stack = t.stack

/-! ## What one step does -/

namespace State

section Steps

variable (hk : s.heap.KeepsLibraries s.globals s.registry l)

include hk

lemma isReserved_iff {i : ℕ} : s.IsReserved i ↔ Heap.Reserved s.registry l i := by
  rw [IsReserved, Heap.Reserved, libraries_eq hk, hk.table?_table hk.libraries, Option.some.injEq, eq_comm (a := l)]

/-- As long as libraries are kept, the globals do not lead to them. -/
lemma sheltered_of_keeps : s.Sheltered := fun i j hi hij hr => hk.apart i j hi hij ((isReserved_iff hk).1 hr)

/-- Writing to a table that is not reserved. -/
lemma passes_rawSet {table key value : Value} (htable : ∀ i, table.table? = some i → ¬ Heap.Reserved s.registry l i)
    (hsheltered : (rawSet table key value s).2.Sheltered) : Passes l s (rawSet table key value s).2 := by
  rcases rawSet_cases table key value s with ⟨e, heq⟩ | ⟨i, hi, -, heq⟩
  · rw [heq]
    exact ⟨hk.refl.retains, rfl, rfl⟩
  rw [heq] at hsheltered ⊢
  have hr := htable i hi
  -- the table of libraries is found as before
  have hlibraries : State.libraries { s with heap := s.heap.write i key value } = .table l := by
    obtain ⟨j, hj, hget⟩ := hk.key
    refine libraries_of_tableGet (hk.regular.interning.of_eq rfl rfl) (hk.table_lt hk.registry)
      ⟨hj.inUse, hj.content⟩ ?_
    exact (Heap.tableGet_write_of_ne (fun heq => hr (.inl heq)) _ _ _).trans hget
  have hapart : (s.heap.write i key value).Avoids (Heap.Reserved s.registry l) (.table s.globals) := by
    intro a b ha hab hb
    refine hsheltered a b ha hab (hb.imp_right fun heq => ?_)
    rw [hlibraries, hk.table?_table hk.libraries, heq]
  exact ⟨(hk.write hr key value hapart).retains, rfl, rfl⟩

omit hk in
/-- A write of a table in use, or of what is no table. -/
lemma closed_rawSet {table key value : Value} (hclosed : s.heap.Closed)
    (hvalue : ∀ j, value.table? = some j → s.heap.InUse (.table j)) : (rawSet table key value s).2.heap.Closed := by
  rcases rawSet_cases table key value s with ⟨e, heq⟩ | ⟨i, -, -, heq⟩ <;> rw [heq]
  · exact hclosed
  · exact hclosed.write hvalue i key

/-- Setting a global makes its name first, which leaves libraries alone. -/
lemma extended_of_setGlobal {name : String} {value : Value} (hfits : (setGlobal name value s).2.heap.Fits) :
    ∃ key m, Extended l s m ∧ setGlobal name value s = rawSet (.table m.globals) key value m := by
  obtain ⟨key, m, hintern, hrun⟩ := setGlobal_cases name value s
  rw [hrun] at hfits
  have hspans : Keeps Heap.Spans (rawSet (.table m.globals) key value) := .rawSet _ _ _
  have hsparing := Sparing.intern hk name
  unfold Sparing at hsparing
  rw [hintern] at hsparing
  exact ⟨key, m, (hsparing ((hspans m).fits hfits)).1.extended, hrun⟩

/-- Setting a global. -/
lemma passes_setGlobal {name : String} {value : Value} (hsheltered : (setGlobal name value s).2.Sheltered)
    (hfits : (setGlobal name value s).2.heap.Fits) : Passes l s (setGlobal name value s).2 := by
  obtain ⟨key, m, hextended, hrun⟩ := extended_of_setGlobal hk hfits
  rw [hrun] at hsheltered ⊢
  have hpasses := hextended.passes
  refine hpasses.trans (passes_rawSet hpasses.keeps (fun i hi => ?_) hsheltered)
  rw [hpasses.keeps.table?_table hpasses.keeps.globals, Option.some.injEq] at hi
  exact hi ▸ hpasses.keeps.globals_not_reserved

/-- A global that is no table leads nowhere. -/
lemma sheltered_setGlobal {name : String} {value : Value} (hvalue : value.table? = none)
    (hfits : (setGlobal name value s).2.heap.Fits) : (setGlobal name value s).2.Sheltered := by
  obtain ⟨key, m, hextended, hrun⟩ := extended_of_setGlobal hk hfits
  rw [hrun]
  have hkm := hextended.passes.keeps
  rcases rawSet_cases (.table m.globals) key value m with ⟨e, heq⟩ | ⟨i, hi, -, heq⟩ <;> rw [heq]
  · exact sheltered_of_keeps hkm
  rw [hkm.table?_table hkm.globals, Option.some.injEq] at hi
  subst hi
  have hapart := Heap.KeepsLibraries.avoids_write hkm.apart (Heap.avoids_of_table? hvalue) m.globals key
  exact sheltered_of_keeps (s := { m with heap := m.heap.write m.globals key value })
    (hkm.write hkm.globals_not_reserved key value hapart).keeps

omit hk in
lemma closed_setGlobal {name : String} {value : Value} (hclosed : s.heap.Closed)
    (hvalue : ∀ j, value.table? = some j → s.heap.InUse (.table j)) : (setGlobal name value s).2.heap.Closed := by
  obtain ⟨key, m, hintern, hrun⟩ := setGlobal_cases name value s
  have htables : m.heap.tables = s.heap.tables := by
    rw [show m = (intern name s).2 by rw [hintern]]
    exact s.heap.tables_intern _
  rw [hrun]
  refine closed_rawSet (hclosed.of_tables_eq htables) fun j hj => ?_
  rw [Heap.InUse, htables]
  exact hvalue j hj

end Steps

end State

namespace LibraryStep

/-- **A step retains libraries**, and a registration that succeeds is recorded. -/
theorem passes (hstep : LibraryStep enter writes m registered n) (hfits : n.state.heap.Fits)
    (hk : m.state.heap.KeepsLibraries m.state.globals m.state.registry l) :
    State.Passes l m.state n.state ∧ ∀ p ∈ registered, n.state.heap.Records l p.1 p.2 := by
  have hrecorded : ∀ {name : String} {r : Except RuntimeError Value}, (∀ v, r = .ok v → n.state.heap.Records l name v) →
      ∀ p ∈ registration name r, n.state.heap.Records l p.1 p.2 := by
    intro name r hr p hp
    rcases r with e | v
    · cases hp
    · rw [List.mem_singleton.1 hp]
      exact hr v rfl
  cases hstep with
  | register name size =>
    obtain ⟨hpasses, -, hpost⟩ := State.registered_registerLibrary name hk size hfits
    exact ⟨hpasses, hrecorded fun v hv => (hpost v hv).1⟩
  | define hends =>
    obtain ⟨hpasses, -, hpost⟩ := Routine.passes_defineLibrary hk hends hfits
    exact ⟨hpasses, hrecorded fun v hv => (hpost v hv).1⟩
  | setGlobal _ hsheltered => exact ⟨State.passes_setGlobal hk hsheltered hfits, nofun⟩
  | rawSet _ htable hsheltered =>
    exact ⟨State.passes_rawSet hk (fun i hi hr => htable i hi ((State.isReserved_iff hk).2 hr)) hsheltered, nofun⟩
  | collect => exact ⟨⟨hk.collect, rfl, rfl⟩, nofun⟩
  | maybeCollect =>
    refine ⟨?_, nofun⟩
    rcases m.state.maybeCollect_cases with heq | heq <;> rw [Machine.state_withState, heq]
    · exact ⟨hk.refl.retains, rfl, rfl⟩
    · exact ⟨hk.collect, rfl, rfl⟩
  | newTable size => exact ⟨⟨(hk.newTable size hfits).retains, rfl, rfl⟩, nofun⟩
  | internBytes content => exact ⟨⟨(hk.intern content hfits).retains, rfl, rfl⟩, nofun⟩
  | elsewhere hheap hglobals hregistry =>
    refine ⟨⟨?_, hglobals, hregistry⟩, nofun⟩
    rw [hheap]
    exact hk.refl.retains

/-- Tables in use hold tables in use only, if that is so for what is written. -/
lemma closed (hstep : LibraryStep enter writes m registered n) (hfits : n.state.heap.Fits)
    (hk : m.state.heap.KeepsLibraries m.state.globals m.state.registry l)
    (hwrites : ∀ s v i, writes s v → v.table? = some i → s.heap.InUse (.table i)) (hclosed : m.state.heap.Closed) :
    n.state.heap.Closed := by
  cases hstep with
  | register name size => exact (State.registered_registerLibrary name hk size hfits).2.1 hclosed
  | define hends => exact (Routine.passes_defineLibrary hk hends hfits).2.1 hclosed
  | setGlobal hvalue => exact State.closed_setGlobal hclosed fun j => hwrites _ _ j hvalue
  | rawSet hvalue => exact State.closed_rawSet hclosed fun j => hwrites _ _ j hvalue
  | collect => exact hclosed.collect hk.regular
  | maybeCollect =>
    rcases m.state.maybeCollect_cases with heq | heq <;> rw [Machine.state_withState, heq]
    · exact hclosed
    · exact hclosed.collect hk.regular
  | newTable size => exact hclosed.newTable hk.regular size
  | internBytes content => exact hclosed.of_tables_eq (m.state.heap.tables_intern content)
  | elsewhere hheap =>
    rw [hheap]
    exact hclosed

end LibraryStep

namespace LibraryRun

/-- A run goes on with a registration that succeeds. -/
lemma register (hrun : LibraryRun enter writes history m) {size : ℕ}
    (hregister : State.registerLibrary name size m.state = (.ok v, s)) (hfits : s.heap.Fits) :
    LibraryRun enter writes (history ++ [(name, v)]) (m.withState s) := by
  have hstep : LibraryStep enter writes m _ _ := .register m name size
  rw [hregister] at hstep
  exact .step hrun hstep hfits

/-- Behind a run, the table of libraries is kept, and has the tables of all registrations. -/
lemma keeps (hrun : LibraryRun enter writes history m) :
    m.state.heap.KeepsLibraries m.state.globals m.state.registry 2 ∧
      ∀ p ∈ history, m.state.heap.Records 2 p.1 p.2 := by
  induction hrun with
  | start host => exact ⟨State.keepsLibraries_new.1, nofun⟩
  | step _ hstep hfits ih =>
    obtain ⟨hpasses, hregistered⟩ := hstep.passes hfits ih.1
    refine ⟨hpasses.keeps, fun p hp => ?_⟩
    rcases List.mem_append.1 hp with hp | hp
    · exact hpasses.retains.records _ _ (ih.2 p hp)
    · exact hregistered p hp

/-- Behind a run that writes tables in use only, tables in use hold such tables only. -/
lemma closed (hrun : LibraryRun enter writes history m)
    (hwrites : ∀ s v i, writes s v → v.table? = some i → s.heap.InUse (.table i)) : m.state.heap.Closed := by
  induction hrun with
  | start host => exact State.keepsLibraries_new.2
  | step hrun hstep hfits ih => exact hstep.closed hfits hrun.keeps.1 hwrites ih

end LibraryRun

/-- **One table for each library.** On a new machine a host registers libraries as it likes, and in between globals
and tables are written, but not the registry or the table of libraries, which the globals never lead to; and garbage is
collected. Then each name has one table for the whole run: the one it is recorded with, which every registration gives
and leaves on top of the stack, whatever has become of the globals. The first registration of a name finds this table by
walking along the name from the globals; if no stray handle of a table has been written, the tables on the way are kept
and those that are missing are made.

**Proof sketch.** A registration writes to tables found from the globals, and records what it has found; so neither the
registry nor the table of libraries is found from the globals then, and neither is recorded itself. A collection keeps
what is recorded with its name, since both are reached from the registry. So by induction on the run, everything that
has been recorded stays so. -/
theorem oneTable_of_run (hrun : LibraryRun enter writes history m) :
    m.OneTable enter history ∧
      ((∀ s v i, writes s v → v.table? = some i → s.heap.InUse (.table i)) → m.state.heap.Closed) := by
  obtain ⟨hk, hrecords⟩ := hrun.keeps
  refine ⟨⟨fun name v w hv hw => hk.records_unique (hrecords _ hv) (hrecords _ hw), fun name v hv => ?_,
    fun name size hv => State.registerLibrary_of_recorded hk hv size, fun name size v t hreg hfits => ?_,
    fun name functions v n hends hfits => ?_⟩, hrun.closed⟩
  · obtain ⟨c, hc, -⟩ := hk.records_table (hrecords _ hv)
    exact ⟨State.isTable_of_table? hc, State.recorded_of_records hk (hrecords _ hv)⟩
  · have hregistered := State.registered_registerLibrary name hk size
    rw [hreg] at hregistered
    exact ((hregistered hfits).2.2 v rfl).2
  · obtain ⟨hpasses, -, hpost⟩ := Routine.passes_defineLibrary hk hends hfits
    obtain ⟨hrec, t, hreg, hdone, hstores⟩ := hpost v rfl
    exact ⟨State.recorded_of_records hpasses.keeps hrec, t, hreg, hdone, hstores.top, hstores.stack⟩

/-- A host registers a library, deletes the global of this name, and registers the library again after a collection.
Both registrations give the same table. -/
theorem oneTable_of_run_deletedGlobal : ∃ (v : Value) (m : Machine Unit),
    LibraryRun (HostProgram.runWithin State.maxFrames)
      (fun s w => ∀ i, w.table? = some i → s.heap.InUse (.table i)) [("net", v), ("net", v)] m ∧
    m.OneTable (HostProgram.runWithin State.maxFrames) [("net", v), ("net", v)] ∧ m.state.heap.Closed := by
  have hname : State.nameParts "net" = ["net"] := by decide +kernel
  obtain ⟨v, s, hfirst, -, htop, -⟩ := State.succeeds_registerLibrary hname 2 State.sound_new State.bare_new
    (show State.new.top < stackLimit by decide)
  let enter : HostProgram Unit → MachineM Unit Nat := HostProgram.runWithin State.maxFrames
  let writes : State → Value → Prop := fun s w => ∀ i, w.table? = some i → s.heap.InUse (.table i)
  let m : Machine Unit := .new ()
  -- each of the four steps makes few entries
  have hallots := State.allots_registerLibrary "net" 2
  rw [hname] at hallots
  have hs : s.heap.HasAtMost 10 := by
    have hmade := hallots State.new 4 State.hasAtMost_new
    rwa [hfirst] at hmade
  have hdeleted : (State.setGlobal "net" .nil s).2.heap.HasAtMost 11 := State.allots_setGlobal "net" .nil s 10 hs
  have hrun : LibraryRun enter writes [("net", v)] (m.withState s) :=
    .register (m := m) (.start ()) hfirst (hs.fits (by decide))
  have hdelete : LibraryRun enter writes [("net", v)] (m.withState (State.setGlobal "net" .nil s).2) := by
    refine .step hrun (.setGlobal (m := m.withState s) (fun i hi => ?_) ?_) (hdeleted.fits (by decide))
    · rw [Value.isPlain_nil.table?] at hi
      cases hi
    · exact State.sheltered_setGlobal hrun.keeps.1 Value.isPlain_nil.table? (hdeleted.fits (by decide))
  obtain ⟨t, ht⟩ : ∃ t, (State.setGlobal "net" .nil s).2.collect = t := ⟨_, rfl⟩
  have hcollected : t.heap.HasAtMost 11 := by
    have hregular := hdelete.keeps.1.regular
    exact ht ▸ State.hasAtMost_collect hregular.wellFormed hregular.unmarked hdeleted
  have hcollect : LibraryRun enter writes [("net", v)] (m.withState t) := by
    subst ht
    exact .step hdelete (.collect _) (hcollected.fits (by decide))
  -- the table is still recorded
  obtain ⟨htable, hrecorded⟩ := (oneTable_of_run hcollect).1.recorded "net" v (List.mem_singleton_self _)
  replace hrecorded : t.recorded "net" = v := hrecorded
  obtain ⟨i, hi⟩ := State.table?_of_isTable htable
  have hnil : (t.recorded "net").isNil = false := hrecorded ▸ Value.isNil_of_object? (Value.object?_of_table? hi)
  have hroom : ¬ stackLimit ≤ t.top := by
    have hone : t.top = State.new.top + 1 := by
      rw [← ht, ← htop]
      exact State.top_setGlobal "net" .nil s
    rw [hone]
    decide
  obtain ⟨u, hagain⟩ : ∃ u, State.registerLibrary "net" 2 t = (.ok v, u) := by
    rw [State.registerLibrary_of_recorded (s := t) hcollect.keeps.1 hnil 2, bind_apply, State.push_apply,
      if_neg hroom, hrecorded]
    exact ⟨_, rfl⟩
  have hu : u.heap.HasAtMost 17 := by
    have hmade := hallots t 11 hcollected
    rwa [hagain] at hmade
  have hlast : LibraryRun enter writes [("net", v), ("net", v)] (m.withState u) :=
    .register (m := m.withState t) hcollect hagain (hu.fits (by decide))
  obtain ⟨hone, hclosed⟩ := oneTable_of_run hlast
  exact ⟨v, _, hlast, hone, hclosed fun _ _ i hw => hw i⟩

end ScriptCore
