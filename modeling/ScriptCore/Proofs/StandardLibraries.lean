import ScriptCore.Library.Standard
import ScriptCore.Proofs.LibraryOpenings

set_option relaxedAutoImplicit false
set_option autoImplicit false

/-!
# Opening the standard libraries

The library of words and the library base 64 are opened in any order and any number of times. Whatever the machine has
under their names, an opening leaves the table of the library on top of the stack, the same one each time, or fails and
leaves the stack as it was. There are two exceptions. With one or two free slots, the opening of the library base 64
fails and leaves the stack full. And when both libraries are opened together and only the second one fails, the table of
the first one is left on the stack.

## Main definitions

* `ScriptCore.StandardLibrary` — the two libraries.
* `ScriptCore.StandardLibrary.Opens` — what an opening leaves.
* `ScriptCore.Openings` — openings one after another.
* `ScriptCore.OpensAll` — what is left when both libraries are opened.

## Main results

* `ScriptCore.StandardLibrary.opens_of_ends` — every opening.
* `ScriptCore.Openings.bears` — any number of openings.
* `ScriptCore.openings_stand` — openings and what is opened behind them.
-/

namespace ScriptCore

open Base64 (Prepared)
open Routine

variable {σ : Type} {enter : HostProgram σ → MachineM σ Nat} {m n k : Machine σ} {r : ℕ}

/-! ## One library -/

/-- A library of the standard ones. -/
inductive StandardLibrary
  | bit32
  | base64

namespace StandardLibrary

/-- The name a library is recorded under. -/
def name : StandardLibrary → String
  | bit32 => "bit32"
  | base64 => "base64"

/-- The opening of a library. -/
def opening : StandardLibrary → Routine σ Value
  | bit32 => Bit32.openLibrary
  | base64 => Base64.openLibrary

/-- The number of values an opening has on the stack at most. -/
def room : StandardLibrary → ℕ
  | bit32 => 1
  | base64 => 3

/-- **The stack is nearly full** for an opening: it has free slots, but not as many as the opening takes. -/
def Crowded (library : StandardLibrary) (s : State) : Prop :=
  s.top < stackLimit ∧ stackLimit < s.top + library.room

/-- **What the opening of a library keeps**: everything under the names of libraries, except that there may come tables
where there have been none to the table of libraries and to the name of this one. -/
def Keeps (library : StandardLibrary) (name : String) (v : Value) : Prop :=
  (name = State.loadedKey ∨ ∃ other : StandardLibrary, name = other.name) ∧
    (name = State.loadedKey ∨ name = library.name → v.isTable = true)

/-- **A library conflicts** with a global that is no table, and is not recorded. -/
def Conflicts (library : StandardLibrary) (s : State) : Prop :=
  (s.lookup s.loaded library.name).isTable = false ∧ s.Obstructed [library.name] (.table s.globals)

/-- **What an opening leaves**: if it succeeds, there is one more value on the stack, the table that is recorded then;
if it fails, because of a conflict or because there is not enough room, the stack is as it was, unless it has been
nearly full. -/
structure Opens (library : StandardLibrary) (m : Machine σ) (q : Except RuntimeError Value) (n : Machine σ) : Prop where
  bears : m.state.Bears library.Keeps n.state
  succeeded : ∀ v, q = .ok v → v.isTable = true ∧ n.state.top = m.state.top + 1 ∧
    n.state.stack.get m.state.top = v ∧ n.state.lookup n.state.loaded library.name = v
  failed : ∀ e, q = .error e →
    e = .nameConflict library.name ∨ (e = .stackOverflow ∧ stackLimit < m.state.top + library.room)
  unchanged : ∀ e, q = .error e → ¬ library.Crowded m.state → n.state.top = m.state.top
  crowded : library.Crowded m.state → q = .error .stackOverflow ∧ n.state.top = stackLimit
  conflict : q = .error (.nameConflict library.name) → m.state.loaded.isTable = true → library.Conflicts m.state
  obstructed : m.state.top + library.room ≤ stackLimit → m.state.loaded.isTable = true → library.Conflicts m.state →
    q = .error (.nameConflict library.name)

variable (library : StandardLibrary)

lemma nameParts_name : State.nameParts library.name = [library.name] := by
  cases library <;> decide +kernel

lemma admits_keeps : State.Admits library.Keeps library.name := by
  intro part hpart v hkept
  rw [nameParts_name] at hpart
  refine hkept.2 ?_
  rcases List.mem_cons.1 hpart with rfl | hpart
  · exact .inl rfl
  · exact .inr (by simpa using hpart)

lemma keeps_loadedKey {v : Value} (hv : v.isTable = true) : library.Keeps State.loadedKey v := ⟨.inl rfl, fun _ => hv⟩

lemma keeps_name (other : StandardLibrary) {v : Value} (hv : v.isTable = true) : library.Keeps other.name v :=
  ⟨.inr ⟨other, rfl⟩, fun _ => hv⟩

/-- Under other names than those of libraries, nothing is kept. -/
lemma not_keeps {key : String} (hloaded : key ≠ State.loadedKey) (hwords : key ≠ "bit32") (hbase64 : key ≠ "base64")
    (v : Value) : ¬ library.Keeps key v := by
  rintro ⟨hkey | ⟨other, hkey⟩, -⟩
  · exact hloaded hkey
  · cases other
    · exact hwords hkey
    · exact hbase64 hkey

/-- The functions of the library of words are stored under other names. -/
lemma not_keeps_functions : ∀ function ∈ (Bit32.functions (σ := σ)).map fun (key, f) => (key, f.program),
    ∀ v, ¬ library.Keeps function.1 v := by
  have hkeys : (Bit32.functions (σ := σ)).map (·.1) =
      ["arshift", "band", "bnot", "bor", "btest", "bxor", "lshift", "rshift"] := rfl
  intro function hfunction
  obtain ⟨⟨key, f⟩, hmem, rfl⟩ := List.mem_map.1 hfunction
  have hkey := List.mem_map_of_mem (f := (·.1)) hmem
  rw [hkeys] at hkey
  have hother : ∀ key ∈ ["arshift", "band", "bnot", "bor", "btest", "bxor", "lshift", "rshift"],
      key ≠ State.loadedKey ∧ key ≠ "bit32" ∧ key ≠ "base64" := by decide
  obtain ⟨h₁, h₂, h₃⟩ := hother key hkey
  exact not_keeps library h₁ h₂ h₃

variable {library}

/-- What is left where a library is established. -/
lemma opens_of_established {size : ℕ} {t : State} {q : Except RuntimeError Value} (hs : m.state.Sound)
    (h : m.state.Established library.Keeps library.name size t q n.state) (hroom : ¬ library.Crowded m.state)
    (hneeds : 0 < library.room) : Opens library m q n := by
  have hprovided := h.provided library.admits_keeps (fun v hv => library.keeps_loadedKey hv)
    fun v hv => library.keeps_name library hv
  have hconflict : m.state.loaded.isTable = true →
      (q = .error (.nameConflict library.name) ↔ library.Conflicts m.state) := fun hloaded => by
    rw [h.conflict_iff hs hloaded, nameParts_name, Conflicts]
  refine ⟨hprovided.bears, hprovided.succeeded, fun e he => ?_, fun e he _ => (hprovided.failed e he).1,
    fun hcrowded => absurd hcrowded hroom, fun hq hloaded => (hconflict hloaded).1 hq,
    fun _ hloaded hconflicts => (hconflict hloaded).2 hconflicts⟩
  exact (hprovided.failed e he).2.imp_right fun ⟨he, hfull⟩ => ⟨he, by omega⟩

/-- **Every opening** ends in one of these ways. -/
theorem opens_of_ends (hm : Prepared (r + 16) m) {q : Except RuntimeError Value}
    (hends : Ends enter library.opening m q n) : Opens library m q n ∧ Prepared r n := by
  cases library with
  | bit32 =>
    obtain ⟨hestablished, hn⟩ := exists_established (r := r + 2) (by rw [bit32.nameParts_name]; exact hm)
      bit32.admits_keeps bit32.not_keeps_functions hends
    refine ⟨opens_of_established hm.sound hestablished ?_ Nat.one_pos, hn.mono (by omega)⟩
    rintro ⟨hlt, hfull⟩
    exact absurd hlt (Nat.not_lt.2 (Nat.le_of_lt_succ hfull))
  | base64 =>
    rcases Nat.lt_or_ge stackLimit (m.state.top + 3) with hlimit | hroom
    · rcases Nat.lt_or_ge m.state.top stackLimit with hlt | hfull
      · obtain ⟨rfl, htop, hbears, hn⟩ := Base64.opening_of_crowded (r := r + 14) hm hlt hlimit hends
        refine ⟨⟨hbears, nofun, fun e he => ?_, fun e _ hnot => absurd ⟨hlt, hlimit⟩ hnot, fun _ => ⟨rfl, htop⟩, nofun,
          fun hroom => absurd hroom (Nat.not_le.2 hlimit)⟩, hn.mono (by omega)⟩
        cases he
        exact .inr ⟨rfl, hlimit⟩
      · obtain ⟨rfl, rfl⟩ := Base64.opening_of_full hfull hends
        refine ⟨⟨.refl hm.sound, nofun, fun e he => ?_, fun _ _ _ => rfl,
          fun hcrowded => absurd hcrowded.1 (Nat.not_lt.2 hfull), nofun,
          fun hroom => absurd hroom (Nat.not_le.2 hlimit)⟩, hm.mono (by omega)⟩
        cases he
        exact .inr ⟨rfl, hlimit⟩
    · have hother : ∀ key ∈ ["encode", "decode"], key ≠ State.loadedKey ∧ key ≠ "bit32" ∧ key ≠ "base64" := by decide
      obtain ⟨t, hestablished, hn⟩ := Base64.exists_established (r := r + 6) hm hroom base64.admits_keeps
        (fun key hkey => not_keeps base64 (hother key hkey).1 (hother key hkey).2.1 (hother key hkey).2.2) hends
      refine ⟨opens_of_established hm.sound hestablished ?_ (Nat.succ_pos 2), hn.mono (by omega)⟩
      rintro ⟨-, hfull⟩
      exact absurd hfull (Nat.not_lt.2 hroom)

variable (enter library) in
/-- **Openings end.** -/
lemma exists_opens (hm : Prepared (r + 16) m) :
    ∃ q n, Ends enter library.opening m q n ∧ Opens library m q n ∧ Prepared r n := by
  have hsettles : Settles enter (library.opening : Routine σ Value) := by
    cases library with
    | bit32 =>
      refine (settles_ask _).bind fun table => Settles.bind (fun m => ?_) fun _ => settles_pure table
      obtain ⟨q, n, hends, -⟩ := exists_ends_forIn enter 0 "bit32" table
        ((Bit32.functions (σ := σ)).map fun (key, f) => (key, f.program)) m
      exact ⟨q, n, hends⟩
    | base64 => exact Base64.settles_openLibrary
  obtain ⟨q, n, hends⟩ := hsettles m
  exact ⟨q, n, hends, opens_of_ends hm hends⟩

/-- The tables of libraries, which every opening keeps. -/
def IsRecorded (name : String) (v : Value) : Prop :=
  (name = State.loadedKey ∨ ∃ library : StandardLibrary, name = library.name) ∧ v.isTable = true

lemma Opens.bears_recorded {q : Except RuntimeError Value} (h : Opens library m q n) :
    m.state.Bears IsRecorded n.state :=
  h.bears.mono fun _ _ ⟨hname, hv⟩ => ⟨hname, fun _ => hv⟩

/-- **A library that is recorded stays so** as long as tables of libraries are kept. -/
lemma recorded_of_bears {s u : State} (h : s.Bears IsRecorded u) (hs : s.Sound)
    (htable : (s.lookup s.loaded library.name).isTable = true) :
    u.lookup u.loaded library.name = s.lookup s.loaded library.name :=
  h.recorded hs (fun _ hv => ⟨.inl rfl, hv⟩) (fun _ hv => ⟨.inr ⟨library, rfl⟩, hv⟩) htable

/-- **The opening of a library that is recorded** gives its table, if there is room. -/
lemma Opens.of_recorded {q : Except RuntimeError Value} (h : Opens library m q n) (hs : m.state.Sound)
    (htop : n.state.top ≤ stackLimit) (htable : (m.state.lookup m.state.loaded library.name).isTable = true) :
    q = if m.state.top + library.room ≤ stackLimit then .ok (m.state.lookup m.state.loaded library.name)
      else .error .stackOverflow := by
  have hnot : ¬ library.Conflicts m.state := fun ⟨hnot, _⟩ => by
    rw [htable] at hnot
    cases hnot
  rcases q with e | v
  · rcases h.failed e rfl with rfl | ⟨rfl, hroom⟩
    · exact absurd (h.conflict rfl (State.isTable_of_lookup htable)) hnot
    · rw [if_neg (Nat.not_le.2 hroom)]
  · obtain ⟨-, htop', -, hlookup⟩ := h.succeeded v rfl
    have hroom : m.state.top + library.room ≤ stackLimit := by
      by_contra hroom
      have hcrowded := (h.crowded ⟨by omega, Nat.lt_of_not_le hroom⟩).1
      cases hcrowded
    rw [if_pos hroom, ← hlookup, recorded_of_bears h.bears_recorded hs htable]

end StandardLibrary

/-! ## Both libraries -/

open StandardLibrary

/-- **What is left when both libraries are opened**: if this succeeds, the stack is as it was; otherwise it is so if the
first library fails, and if the second one fails, the table of the first one is left on the stack. -/
structure OpensAll (m : Machine σ) (q : Except RuntimeError Unit) (n : Machine σ) : Prop where
  bears : m.state.Bears IsRecorded n.state
  succeeded : q = .ok () → n.state.top = m.state.top ∧
    ∀ library : StandardLibrary, (n.state.lookup n.state.loaded library.name).isTable = true
  failed : ∀ e, q = .error e →
    (Opens bit32 m (.error e) n ∧ n.state.top = m.state.top) ∨
      ∃ v k, Opens bit32 m (.ok v) k ∧ Opens base64 k (.error e) n ∧ m.state.top < n.state.top ∧
        n.state.stack.get m.state.top = v

/-- What is under names depends on the heap and the registry. -/
lemma lookup_loaded_congr {s u : State} (hheap : u.heap = s.heap) (hregistry : u.registry = s.registry)
    (name : String) :
    u.lookup u.loaded name = s.lookup s.loaded name := by
  simp only [State.lookup, State.loaded, State.rawGet, hheap, hregistry]

/-- Nothing but the frame has become another one. -/
lemma bears_of_cut {K : String → Value → Prop} {t : State} (h : m.state.Bears K n.state) (hm : Prepared r m)
    (hn : Prepared r n) (hb : n.state.Became n.state.heap m.state.view t) :
    m.state.Bears K t ∧ t.top = m.state.top ∧ Prepared r (n.withState t) := by
  have hbase : n.state.base = m.state.base := by rw [State.base, h.frames, State.base]
  have hlow := hm.base_le
  have htop : t.top = m.state.top := by
    have hlength := (State.Became.refl hm.base_le hm.top_le).top
    rw [hb.top, hbase, ← hlength]
  obtain ⟨l, hview⟩ := State.exists_view_append h
  have ht : Prepared r (n.withState t) := hn.became hb fun v hv => by
    rw [hview]
    exact List.mem_append_left _ hv
  have hslots := State.slots_of_view (hb.base.trans hbase) (hb.view.trans (List.append_nil _).symm) fun i hi =>
    (hb.below i (by rw [hb.base, hbase]; exact hi)).trans (h.slots i (by omega))
  refine ⟨⟨ht.sound, ⟨fun o ho => ?_, ?_⟩, hb.globals.trans h.globals, hb.registry.trans h.registry,
    hb.frames.trans h.frames, htop.ge, hslots, fun v name hv hkept => ?_⟩, htop, ht⟩
  · rw [hb.heap]
    exact h.grows.inUse o ho
  · rw [hb.natives]
    exact h.grows.natives
  · rw [← h.entries v name hv hkept]
    simp only [State.lookup, State.rawGet, hb.heap]

variable (enter) in
/-- **Both libraries are opened**: this ends, and leaves what is said. -/
theorem exists_opensAll (hm : Prepared (r + 32) m) :
    ∃ q n, Ends enter openStandard m q n ∧ OpensAll m q n ∧ Prepared r n := by
  have hsize : Ends enter frameSize m (.ok m.state.size) m := ends_reading (r := .frameSize) rfl
  obtain ⟨q, k, hfirst, hopens, hk⟩ := exists_opens enter bit32 (r := r + 16) hm
  rcases q with e | v
  · have htop := hopens.unchanged e rfl fun ⟨hlt, hfull⟩ => absurd hlt (Nat.not_lt.2 (Nat.le_of_lt_succ hfull))
    refine ⟨.error e, k, hsize.bind hfirst.bind_error, ⟨hopens.bears_recorded, nofun, fun e' he => ?_⟩,
      hk.mono (by omega)⟩
    cases he
    exact .inl ⟨hopens, htop⟩
  obtain ⟨q, n, hsecond, hopens', hn⟩ := exists_opens enter base64 hk
  obtain ⟨htable, htop, hslot, hlookup⟩ := hopens.succeeded v rfl
  have hbears := hopens.bears_recorded.trans hopens'.bears_recorded
  rcases q with e | w
  · refine ⟨.error e, n, hsize.bind (hfirst.bind hsecond.bind_error), ⟨hbears, nofun, fun e' he => ?_⟩, hn⟩
    cases he
    have hle := hopens'.bears.top_le
    exact .inr ⟨v, k, hopens, hopens', by omega, (hopens'.bears.slots _ (by omega)).trans hslot⟩
  obtain ⟨htable', -, -, hlookup'⟩ := hopens'.succeeded w rfl
  obtain ⟨l, hview⟩ := State.exists_view_append hbears
  have hgives : Gives enter (ask (.setTop m.state.size)) n n.state () n.state.heap m.state.view :=
    Base64.gives_cut hn hview
  obtain ⟨t, hcut, hb⟩ := hgives
  obtain ⟨hbears, htop, ht⟩ := bears_of_cut hbears (hm.mono (Nat.le_add_right r 32)) hn hb
  refine ⟨.ok (), n.withState t, hsize.bind (hfirst.bind (hsecond.bind hcut)),
    ⟨hbears, fun _ => ⟨htop, fun library => ?_⟩, nofun⟩, ht⟩
  rw [Machine.state_withState, lookup_loaded_congr hb.heap hb.registry]
  cases library with
  | bit32 =>
    rw [recorded_of_bears hopens'.bears_recorded hk.sound (hlookup ▸ htable), hlookup]
    exact htable
  | base64 => exact hlookup' ▸ htable'

/-! ## Any number of openings -/

/-- **Openings one after another** lead from one machine to another, with the tables that have been given for
libraries. -/
inductive Openings (enter : HostProgram σ → MachineM σ Nat) :
    ℕ → Machine σ → List (StandardLibrary × Value) → Machine σ → Prop
  | nil (m : Machine σ) : Openings enter 0 m [] m
  | opened {c : ℕ} {m k n : Machine σ} {library : StandardLibrary} {v : Value} {tables : List (StandardLibrary × Value)}
      (hopen : Ends enter library.opening m (.ok v) k) (hrest : Openings enter c k tables n) :
      Openings enter (c + 1) m ((library, v) :: tables) n
  | failed {c : ℕ} {m k n : Machine σ} {library : StandardLibrary} {e : RuntimeError}
      {tables : List (StandardLibrary × Value)}
      (hopen : Ends enter library.opening m (.error e) k) (hrest : Openings enter c k tables n) :
      Openings enter (c + 1) m tables n
  | all {c : ℕ} {m k n : Machine σ} {q : Except RuntimeError Unit} {tables : List (StandardLibrary × Value)}
      (hopen : Ends enter openStandard m q k) (hrest : Openings enter c k tables n) :
      Openings enter (c + 1) m tables n

variable {c : ℕ} {tables : List (StandardLibrary × Value)}

/-- **What openings leave**: the stack there was is there still, and the tables they have given are recorded. -/
theorem Openings.bears (h : Openings enter c m tables n) (hm : Prepared (r + 32 * c) m) :
    m.state.Bears IsRecorded n.state ∧ Prepared r n ∧ ∀ library v, (library, v) ∈ tables →
      v.isTable = true ∧ n.state.lookup n.state.loaded library.name = v := by
  induction h with
  | nil => exact ⟨.refl hm.sound, hm, nofun⟩
  | @opened c m k n library v tables hopen _ ih =>
    obtain ⟨hopens, hk⟩ := opens_of_ends (r := r + 32 * c + 16) hm hopen
    obtain ⟨hbears, hn, htables⟩ := ih (hk.mono (by omega))
    obtain ⟨htable, -, -, hlookup⟩ := hopens.succeeded v rfl
    refine ⟨hopens.bears_recorded.trans hbears, hn, fun library' v' hmem => ?_⟩
    rcases List.mem_cons.1 hmem with heq | hmem
    · cases heq
      exact ⟨htable, (recorded_of_bears hbears hk.sound (hlookup ▸ htable)).trans hlookup⟩
    · exact htables library' v' hmem
  | @failed c m k n library e tables hopen _ ih =>
    obtain ⟨hopens, hk⟩ := opens_of_ends (r := r + 32 * c + 16) hm hopen
    obtain ⟨hbears, hn, htables⟩ := ih (hk.mono (by omega))
    exact ⟨hopens.bears_recorded.trans hbears, hn, htables⟩
  | @all c m k n q tables hopen _ ih =>
    obtain ⟨q', k', hopen', hopens, hk⟩ := exists_opensAll enter (r := r + 32 * c) hm
    obtain ⟨rfl, rfl⟩ := hopen'.unique hopen
    obtain ⟨hbears, hn, htables⟩ := ih hk
    exact ⟨hopens.bears.trans hbears, hn, htables⟩

/-- A machine with one global is prepared. -/
lemma prepared_withGlobal (name : String) (b : Bool) :
    Prepared 32 ((Machine.new ()).withState (State.withGlobal name b)) := by
  have hm : Prepared (32 + 1) (Machine.new ()) := Base64.prepared_new () (by decide)
  have hupholds := State.upholds_withGlobal name b
  have hnatives : (State.withGlobal name b).natives = State.new.natives := by rw [hupholds.rest]
  have htop : (State.withGlobal name b).top = 0 := State.top_setGlobal name (.bool b) State.new
  refine hm.of_bears hupholds.bears ?_ (congrArg Array.size hnatives).symm
    (State.allots_setGlobal name (.bool b) _ _ hm.hasAtMost) ?_
  · exact htop.le.trans (Nat.zero_le _)
  · exact (congrArg Array.size hnatives).le.trans (Nat.le_succ _)

/-- **Opening libraries is idempotent, and leaves the stack as it was, with two exceptions.** Behind any openings, the
slots and frames there were are the same, and every library has one table. The next opening of a library and the opening
of both end in one of the ways that are described, and a library that has been opened is given the same table again, as
long as there is room.

**Proof sketch.** A registration writes a table where there is none only, and functions are stored under other names, so
that what is recorded stays recorded through every opening. The frame is followed value by value while the library
base 64 makes its environments. -/
theorem openings_stand (hm : Prepared (32 * (c + 1)) m) (hrun : Openings enter c m tables n) :
    m.state.Bears IsRecorded n.state ∧
    (∀ library v w, (library, v) ∈ tables → (library, w) ∈ tables → v = w) ∧
    (∀ library : StandardLibrary, ∃ q k, Ends enter library.opening n q k ∧ Opens library n q k ∧
      ∀ v, (library, v) ∈ tables →
        q = if n.state.top + library.room ≤ stackLimit then .ok v else .error .stackOverflow) ∧
    ∃ q k, Ends enter openStandard n q k ∧ OpensAll n q k := by
  obtain ⟨hbears, hn, htables⟩ := hrun.bears (r := 32) (hm.mono (by omega))
  refine ⟨hbears, fun library v w hv hw => (htables library v hv).2.symm.trans (htables library w hw).2,
    fun library => ?_, ?_⟩
  · obtain ⟨q, k, hends, hopens, hk⟩ := exists_opens enter library (r := 16) hn
    refine ⟨q, k, hends, hopens, fun v hv => ?_⟩
    obtain ⟨htable, hlookup⟩ := htables library v hv
    have hq := hopens.of_recorded hn.sound hk.top_le (hlookup ▸ htable)
    rwa [hlookup] at hq
  · obtain ⟨q, k, hends, hopens, -⟩ := exists_opensAll enter (r := 0) hn
    exact ⟨q, k, hends, hopens⟩

/-- The library base 64 is opened on a new machine, and again then. -/
theorem openings_stand_new : ∃ (table : Value) (n k : Machine Unit), Prepared 64 (Machine.new ()) ∧
    Openings (HostProgram.runWithin 1) 1 (Machine.new ()) [(base64, table)] n ∧
    Ends (HostProgram.runWithin 1) Base64.openLibrary n (.ok table) k ∧ Opens base64 n (.ok table) k := by
  have hm : Prepared 64 (Machine.new ()) := Base64.prepared_new () (by decide)
  obtain ⟨table, n, hopen, -, hroom⟩ := Base64.exists_opened_new ()
  have hrun : Openings (HostProgram.runWithin 1) 1 (Machine.new ()) [(base64, table)] n := .opened hopen (.nil n)
  obtain ⟨-, -, hnext, -⟩ := openings_stand hm hrun
  obtain ⟨q, k, hends, hopens, hsame⟩ := hnext base64
  have hstack : n.state.top + 3 ≤ stackLimit := (Nat.le_succ _).trans hroom.stack
  obtain rfl : q = .ok table := (hsame table (List.mem_singleton_self _)).trans (if_pos hstack)
  exact ⟨table, n, k, hm, hrun, hends, hopens⟩

/-- **The table of the first library stays on the stack** when the second one conflicts with a global that is no
table. -/
theorem openStandard_of_conflict : (State.withGlobal "base64" true).top = 0 ∧ ∃ n : Machine Unit,
    Ends (HostProgram.runWithin 1) openStandard ((Machine.new ()).withState (State.withGlobal "base64" true))
      (.error (.nameConflict "base64")) n ∧ n.state.top = 1 := by
  have htop : (State.withGlobal "base64" true).top = 0 := State.top_setGlobal "base64" (.bool true) State.new
  refine ⟨htop, ?_⟩
  have hm := prepared_withGlobal "base64" true
  obtain ⟨htable, hnot⟩ := State.loaded_withGlobal "base64" true
  have hglobal : (State.withGlobal "base64" true).lookup (.table (State.withGlobal "base64" true).globals) base64.name =
      .bool true := State.lookup_withGlobal "base64" true
  have hother : (State.withGlobal "base64" true).lookup (.table (State.withGlobal "base64" true).globals) bit32.name =
      .nil := State.lookup_withGlobal_of_ne true (by decide)
  obtain ⟨m, hmeq⟩ : ∃ m, (Machine.new ()).withState (State.withGlobal "base64" true) = m := ⟨_, rfl⟩
  have hstate : State.withGlobal "base64" true = m.state := hmeq ▸ rfl
  rw [hstate] at htop htable hnot hglobal hother
  rw [hmeq] at hm ⊢
  -- the first library is opened
  obtain ⟨q, k, hfirst, hopens, hk⟩ := exists_opens (HostProgram.runWithin 1) bit32 (r := 16) hm
  rcases q with e | v
  · exfalso
    rcases hopens.failed e rfl with rfl | ⟨-, hfull⟩
    · have hobstructed := (hopens.conflict rfl htable).2
      rw [State.obstructed_cons, hother] at hobstructed
      rcases hobstructed with ⟨hnil, -⟩ | ⟨hnil, -⟩ <;> cases hnil
    · rw [htop] at hfull
      exact absurd hfull (by decide)
  obtain ⟨-, hktop, -, -⟩ := hopens.succeeded v rfl
  rw [htop] at hktop
  -- the global of the second one is in its way still
  have hkept : ∀ v, m.state.Live v → k.state.lookup v base64.name = m.state.lookup v base64.name := fun v hv =>
    hopens.bears.entries v base64.name hv ⟨.inr ⟨base64, rfl⟩, fun hname => absurd hname (by decide)⟩
  have hloaded : k.state.loaded = m.state.loaded := by
    rw [State.loaded, hopens.bears.registry]
    exact hopens.bears.entries _ _ (hm.sound.root _ .registry) (bit32.keeps_loadedKey htable)
  have hconflicts : base64.Conflicts k.state := by
    rw [Conflicts, State.obstructed_cons, hloaded, hkept _ hm.sound.live_loaded, hopens.bears.globals,
      hkept _ (hm.sound.root _ .globals), hglobal]
    exact ⟨hnot "base64", .inl ⟨rfl, rfl⟩⟩
  obtain ⟨q, n, hsecond, hopens', -⟩ := exists_opens (HostProgram.runWithin 1) base64 (r := 0) hk
  have hroom : k.state.top + base64.room ≤ stackLimit := by
    rw [hktop]
    decide
  obtain rfl := hopens'.obstructed hroom (hloaded ▸ htable) hconflicts
  have hntop := hopens'.unchanged _ rfl fun hcrowded => absurd hcrowded.2 (Nat.not_lt.2 hroom)
  have hsize : Ends (HostProgram.runWithin 1) frameSize m (.ok m.state.size) m := ends_reading (r := .frameSize) rfl
  exact ⟨n, hsize.bind (hfirst.bind hsecond.bind_error), hntop.trans hktop⟩

end ScriptCore
