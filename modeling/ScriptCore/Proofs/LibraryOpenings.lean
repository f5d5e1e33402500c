import ScriptCore.Proofs.Base64Opening
import ScriptCore.Proofs.RecordedTables

set_option relaxedAutoImplicit false
set_option autoImplicit false

/-!
# What the opening of a library leaves

An opening registers its library and stores functions in the table. The library of words does so at once. The library
base 64 makes its environments first, on top of the frame, which is cut again then. For this it needs three free slots:
on a full stack it fails at once, and with one or two free slots it fails when the stack is full.

## Main definitions

* `ScriptCore.State.Established` — a library has been registered, and functions have been stored.

## Main results

* `ScriptCore.State.Established.provided` — what this leaves.
* `ScriptCore.Routine.exists_established` — a library is defined.
* `ScriptCore.Base64.exists_established`, `ScriptCore.Base64.opening_of_crowded` — the library base 64 is opened, with
  and without room.
-/

namespace ScriptCore

/-! ## Heaps of a size -/

namespace Heap

variable {h : Heap} {n : ℕ}

lemma hasAtMost_iff : h.HasAtMost n ↔ h.strings.items.size ≤ n ∧ h.tables.items.size ≤ n ∧ h.envs.items.size ≤ n ∧
    h.userdata.items.size ≤ n := by
  have hle : ∀ size, (∀ i < size, i < n) → size ≤ n := fun size hall => by
    by_contra hlt
    exact absurd (hall n (by omega)) (lt_irrefl n)
  refine ⟨fun hn => ⟨hle _ fun i hi => hn (.string i) hi, hle _ fun i hi => hn (.table i) hi,
    hle _ fun i hi => hn (.env i) hi, hle _ fun i hi => hn (.userdata i) hi⟩, fun ⟨hs, ht, he, hu⟩ o ho => ?_⟩
  cases o with
  | string i => exact Nat.lt_of_lt_of_le ho hs
  | table i => exact Nat.lt_of_lt_of_le ho ht
  | env i => exact Nat.lt_of_lt_of_le ho he
  | userdata i => exact Nat.lt_of_lt_of_le ho hu

end Heap

/-! ## Frames -/

namespace State

variable {s t u : State} {v table f : Value} {key name : String} {K : String → Value → Prop} {n size : ℕ}
  {q : Except RuntimeError Value} {l : List Value}

/-- The slots in use are the same when the frame has got more values. -/
lemma slots_of_view (hbase : u.base = s.base) (hview : u.view = s.view ++ l)
    (hbelow : ∀ i < s.base, u.stack.get i = s.stack.get i) : ∀ i < s.top, u.stack.get i = s.stack.get i := by
  intro i hi
  rcases Nat.lt_or_ge i s.base with hlow | hlow
  · exact hbelow i hlow
  have hsize : s.size = s.top - s.base := rfl
  have hold := getElem?_view s (i - s.base)
  rw [if_pos (by omega), Nat.add_sub_cancel' hlow] at hold
  have hnew := getElem?_view u (i - s.base)
  rw [hview, List.getElem?_append_left (by rw [length_view]; omega), hold, hbase, Nat.add_sub_cancel' hlow] at hnew
  split at hnew
  · exact (Option.some.inj hnew).symm
  · cases hnew

/-- The frame has got more values when the slots in use are the same. -/
lemma exists_view_append (h : s.Bears K u) : ∃ l, u.view = s.view ++ l := by
  have hbase : u.base = s.base := by rw [State.base, h.frames, State.base]
  have hsize : s.size = s.top - s.base := rfl
  have hsize' : u.size = u.top - u.base := rfl
  have htop := h.top_le
  have htake : u.view.take s.size = s.view := List.ext_getElem? fun i => by
    rw [List.getElem?_take, getElem?_view, getElem?_view]
    split
    · rw [if_pos (by omega), hbase, h.slots _ (by omega)]
    · rfl
  refine ⟨u.view.drop s.size, ?_⟩
  rw [← htake, List.take_append_drop]

/-! ## Storing functions -/

/-- **A value is stored in a table** under a name. -/
lemma exists_stored (hs : s.Sound) (hn : s.heap.HasAtMost n) (hlt : n < Value.payloadLimit) (hlive : s.Live table)
    (htable : table.isTable = true) (hf : s.Live f) (hkey : ∀ v, ¬ K key v) :
    ∃ i m u, intern key s = (.ok (.string i), m) ∧ rawSet table (.string i) f m = (.ok (), u) ∧ s.Upholds K u ∧
      u.heap.HasAtMost (n + 1) := by
  obtain ⟨hm, hmore⟩ := moreStrings_withStrings hs [key]
  have hatmost : (s.withStrings [key]).heap.HasAtMost (n + 1) := hn.intern _
  have hfits := hatmost.fits hlt
  have hi := hs.heap.orderly.interning.holdsString_index (Text.bytes key)
  obtain ⟨c, hc⟩ := table?_of_isTable htable
  have hset := rawSet_string (s.heap.intern (Text.bytes key)).1 f hc ((hmore.live hlive).inUse_table hc).lt_size
  have hupholds := (hmore.upholds hs hm hfits).rawSet hfits (hmore.live hlive) hi (hmore.live hf) (hkey _)
  have hsize := allots_rawSet table (.string (s.heap.intern (Text.bytes key)).1) f _ _ hatmost
  rw [hset] at hupholds hsize
  exact ⟨_, _, _, rfl, hset, hupholds, hsize⟩

/-- A new function changes no entry. -/
lemma bears_addNative (hs : s.Sound) (name : String) {upvalues : Array Value} (hu : ∀ v ∈ upvalues, s.Live v) :
    s.Bears K (s.addNative name upvalues).2 := by
  obtain ⟨hsound, hextends, -⟩ := sound_addNative hs name hu
  exact ⟨hsound, hextends, rfl, rfl, rfl, le_rfl, fun _ _ => rfl, fun _ _ _ _ => rfl⟩

/-! ## Registrations and what is around them -/

/-- **A library is established** between two states: behind the state `t`, which differs from the first one only by more
objects, it has been registered, and then functions have been stored if this has succeeded. -/
structure Established (K : String → Value → Prop) (name : String) (size : ℕ) (s t : State)
    (q : Except RuntimeError Value) (u : State) : Prop where
  before : s.Bears (fun _ _ => True) t
  top_before : t.top = s.top
  fits : (registerLibrary name size t).2.heap.Fits
  result : q = (registerLibrary name size t).1
  after : (registerLibrary name size t).2.Bears K u
  top_after : u.top = (registerLibrary name size t).2.top

/-- **What is left** where a library is established. -/
theorem Established.provided (h : s.Established K name size t q u) (hkept : Admits K name)
    (hloaded : ∀ v, v.isTable = true → K loadedKey v) (hname : ∀ v, v.isTable = true → K name v) :
    s.Provided K name q u := by
  obtain ⟨hprovided, -⟩ := provided_registerLibrary size h.before.sound hkept h.fits
  refine ⟨((h.before.mono fun _ _ _ => trivial).trans hprovided.bears).trans h.after, fun e he => ?_, fun v hv => ?_⟩
  · obtain ⟨htop, hkind⟩ := hprovided.failed e (h.result.symm.trans he)
    rw [h.top_before] at htop hkind
    exact ⟨h.top_after.trans htop, hkind⟩
  · obtain ⟨htable, htop, hslot, hlookup⟩ := hprovided.succeeded v (h.result.symm.trans hv)
    rw [h.top_before] at htop hslot
    refine ⟨htable, h.top_after.trans htop, (h.after.slots _ (by omega)).trans hslot, ?_⟩
    rw [h.after.recorded hprovided.bears.sound hloaded hname (hlookup ▸ htable), hlookup]

/-- **When there is a conflict** where a library is established. -/
theorem Established.conflict_iff (h : s.Established K name size t q u) (hs : s.Sound)
    (hloaded : s.loaded.isTable = true) :
    q = .error (.nameConflict name) ↔
      (s.lookup s.loaded name).isTable = false ∧ s.Obstructed (nameParts name) (.table s.globals) := by
  have hlookup : ∀ v, s.Live v → ∀ name, t.lookup v name = s.lookup v name :=
    fun v hv name => h.before.entries v name hv trivial
  have hsame : t.loaded = s.loaded := by
    rw [loaded, h.before.registry, hlookup _ (hs.root _ .registry)]
    rfl
  rw [h.result, (registerLibrary_conflict h.before.sound (hsame ▸ hloaded) name size h.fits).1, hsame,
    hlookup _ hs.live_loaded, h.before.globals, obstructed_congr hs hlookup (hs.root _ .globals)]

end State

/-! ## Machines that stay prepared -/

namespace Base64

variable {σ : Type} {m n k : Machine σ} {r j : ℕ} {K : String → Value → Prop}

lemma Prepared.hasAtMost (hm : Prepared r m) : m.state.heap.HasAtMost (Value.payloadLimit - r) := by
  obtain ⟨-, -, -, -, hs, ht, he, hu, -⟩ := hm
  rw [Heap.hasAtMost_iff]
  omega

lemma Prepared.mono (hm : Prepared r m) (hle : j ≤ r) : Prepared j m := by
  obtain ⟨hsound, hbase, htop, hbodies, hs, ht, he, hu, hn⟩ := hm
  exact ⟨hsound, hbase, htop, hbodies, by omega, by omega, by omega, by omega, by omega⟩

/-- **A machine stays prepared** when a few objects and functions have been made. -/
lemma Prepared.of_bears (hm : Prepared (r + j) m) (hb : m.state.Bears K n.state) (htop : n.state.top ≤ stackLimit)
    (hbodies : n.bodies.size = n.state.natives.size)
    (hheap : n.state.heap.HasAtMost (Value.payloadLimit - (r + j) + j))
    (hnatives : n.state.natives.size ≤ m.state.natives.size + j) : Prepared r n := by
  have hroom := hm.natives
  rw [Heap.hasAtMost_iff] at hheap
  have hbase : n.state.base = m.state.base := by rw [State.base, hb.frames, State.base]
  have hlow := hm.base_le
  have hle := hb.top_le
  exact ⟨hb.sound, by omega, htop, hbodies, by omega, by omega, by omega, by omega, by omega⟩

/-- What is led to differs by more objects only, if the frame has got more values. -/
lemma Leads.bears {l : List Value} (h : Leads m k) (hm : Prepared r m) (hk : Prepared j k)
    (hview : k.state.view = m.state.view ++ l) : m.state.Bears K k.state := by
  have hstrings : ∀ i content, m.state.heap.HoldsString i content → k.state.heap.HoldsString i content :=
    fun i content hi => by
      have hsame : k.state.heap.strings.get? i = m.state.heap.strings.get? i := h.adds.same _ hi.inUse
      exact ⟨h.adds.inUse _ hi.inUse, hsame.trans hi.content⟩
  have hget : ∀ v, m.state.Live v → ∀ key, k.state.rawGet v key = m.state.rawGet v key := fun v hv key => by
    cases hc : v.table? with
    | none => rw [State.rawGet_of_no_table hc, State.rawGet_of_no_table hc]
    | some c =>
      have hsame : k.state.heap.tables.get? c = m.state.heap.tables.get? c := h.adds.same _ (hv.inUse_table hc)
      rw [State.rawGet_of_table? hc, State.rawGet_of_table? hc, Heap.tableGet, hsame, Heap.tableGet]
  have hfits : k.state.heap.Fits := hk.hasAtMost.fits (by omega)
  have htop := (State.Became.refl hm.base_le hm.top_le).top
  have htop' := (State.Became.refl hk.base_le hk.top_le).top
  rw [hview, List.length_append, h.base] at htop'
  exact ⟨hk.sound, ⟨h.adds.inUse, h.natives⟩, h.globals, h.registry, h.frames, by omega,
    State.slots_of_view h.base hview h.below,
    fun v name hv _ => State.lookup_eq_of_rawGet_eq hm.sound hk.sound hfits hstrings hv (hget v hv) name⟩

end Base64

/-! ## Defining a library -/

namespace Routine

open Base64 (Prepared)

variable {σ : Type} {enter : HostProgram σ → MachineM σ Nat} {m n k : Machine σ} {r : ℕ} {K : String → Value → Prop}
  {table : Value} {name : String} {functions : List (String × HostProgram σ)} {q : Except RuntimeError Value}

variable (enter name) in
/-- One function is stored. -/
lemma exists_stored (hm : Prepared (r + 1) m) (hlive : m.state.Live table) (htable : table.isTable = true)
    (function : String × HostProgram σ) (hkey : ∀ v, ¬ K function.1 v) :
    ∃ n, Ends enter (store table name function ()) m (.ok (.yield ())) n ∧ m.state.Bears K n.state ∧
      n.state.top = m.state.top ∧ Prepared r n := by
  obtain ⟨key, body⟩ := function
  have hroom := hm.natives
  obtain ⟨k, hk⟩ : ∃ k, m.addFunction (name ++ "." ++ key) body #[] = k := ⟨_, rfl⟩
  have hdefine : Ends enter (define (name ++ "." ++ key) body #[]) m (.ok (.function m.state.natives.size)) k :=
    hk ▸ ends_define _ _ _
  have hadded : m.state.Bears K k.state := hk ▸ State.bears_addNative hm.sound (name ++ "." ++ key) nofun
  have hfunction : k.state.Live (.function m.state.natives.size) :=
    hk ▸ (@State.sound_addNative _ hm.sound (name ++ "." ++ key) #[] nofun).2.2
  have hsize : k.state.natives.size = m.state.natives.size + 1 := hk ▸ Array.size_push _
  have hbodies : k.bodies.size = m.bodies.size + 1 := hk ▸ Array.size_push _
  have hatmost : k.state.heap.HasAtMost (Value.payloadLimit - (r + 1)) := hk ▸ hm.hasAtMost
  have htop : k.state.top = m.state.top := hk ▸ rfl
  obtain ⟨i, s, u, hintern, hset, hupholds, hatmost⟩ := State.exists_stored (K := K) hadded.sound hatmost (by omega)
    (hlive.mono hadded.grows) htable hfunction hkey
  have hput : Ends enter (intern key) k (.ok (.string i)) (k.withState s) :=
    (performs_ask (.intern (Text.bytes key))).ends hintern
  have hstore : Ends enter (ask (.rawSet table (.string i) (.function m.state.natives.size))) (k.withState s) (.ok ())
      (k.withState u) := (performs_ask (.rawSet table (.string i) (.function m.state.natives.size))).ends hset
  have hbears := hadded.trans hupholds.bears
  have htop : u.top = m.state.top := by rw [hupholds.rest, htop]
  have hnatives : u.natives.size = m.state.natives.size + 1 := by rw [hupholds.rest, hsize]
  refine ⟨k.withState u, hdefine.bind (hput.bind (hstore.bind (ends_pure _))), hbears, htop,
    hm.of_bears hbears (htop ▸ hm.top_le) ?_ hatmost hnatives.le⟩
  rw [Machine.bodies_withState, hbodies, hm.bodies, Machine.state_withState, hnatives]

variable (enter name) in
/-- **All functions are stored.** -/
lemma exists_all_stored (hm : Prepared (r + functions.length) m) (hlive : m.state.Live table)
    (htable : table.isTable = true) (hkeys : ∀ function ∈ functions, ∀ v, ¬ K function.1 v) :
    ∃ n, Ends enter (forIn functions () (store table name)) m (.ok ()) n ∧ m.state.Bears K n.state ∧
      n.state.top = m.state.top ∧ Prepared r n := by
  induction functions generalizing m with
  | nil => exact ⟨m, ends_pure _, .refl hm.sound, rfl, hm⟩
  | cons function functions ih =>
    obtain ⟨hkey, hrest⟩ := List.forall_mem_cons.1 hkeys
    obtain ⟨k, hstore, hmk, htop, hk⟩ := exists_stored enter name hm hlive htable function hkey
    obtain ⟨n, hends, hkn, htop', hn⟩ := ih hk (hlive.mono hmk.grows) hrest
    rw [List.forIn_cons]
    exact ⟨n, hstore.bind hends, hmk.trans hkn, htop'.trans htop, hn⟩

/-- **A library is defined**: it is registered, and then its functions are stored. -/
theorem exists_established (hm : Prepared (r + functions.length + (4 + 2 * (State.nameParts name).length)) m)
    (hkept : State.Admits K name) (hkeys : ∀ function ∈ functions, ∀ v, ¬ K function.1 v)
    (hends : Ends enter (defineLibrary name functions) m q n) :
    m.state.Established K name functions.length m.state q n.state ∧ Prepared r n := by
  have hroom := hm.natives
  have hsize := State.allots_registerLibrary name functions.length _ _ hm.hasAtMost
  obtain ⟨hprovided, hnatives, htop⟩ :=
    State.provided_registerLibrary functions.length hm.sound hkept (hsize.fits (by omega))
  obtain ⟨p, u, hregister⟩ : ∃ p u, State.registerLibrary name functions.length m.state = (p, u) := ⟨_, _, rfl⟩
  have hfirst : Ends enter (ask (.registerLibrary name functions.length)) m p (m.withState u) :=
    (performs_ask (.registerLibrary name functions.length)).ends hregister
  rw [hregister] at hsize hprovided hnatives htop
  have hlimit := hm.top_le
  have hu : Prepared (r + functions.length) (m.withState u) :=
    hm.of_bears hprovided.bears (htop.trans (max_le hlimit le_rfl))
      (hm.bodies.trans (congrArg Array.size hnatives).symm) hsize (by rw [Machine.state_withState, hnatives]; omega)
  have hfits : (State.registerLibrary name functions.length m.state).2.heap.Fits := by
    rw [hregister]
    exact hsize.fits (by omega)
  rw [defineLibrary_eq] at hends
  rcases p with e | table
  · obtain ⟨rfl, rfl⟩ := hfirst.bind_error.unique hends
    exact ⟨⟨.refl hm.sound, rfl, hfits, by rw [hregister], by rw [hregister]; exact .refl hprovided.bears.sound,
      by rw [hregister]; rfl⟩, hu.mono (by omega)⟩
  · obtain ⟨htable, htop, hslot, -⟩ := hprovided.succeeded table rfl
    have hlive : u.Live table := hslot ▸ hprovided.bears.sound.root _ (.stack (by omega))
    obtain ⟨n', hstored, hbears, hsame, hn⟩ := exists_all_stored enter name hu hlive htable hkeys
    obtain ⟨rfl, rfl⟩ := (hfirst.bind (hstored.bind (ends_pure table))).unique hends
    exact ⟨⟨.refl hm.sound, rfl, hfits, by rw [hregister], by rw [hregister]; exact hbears,
      by rw [hregister]; exact hsame⟩, hn⟩

end Routine

/-! ## Opening the library base 64 -/

namespace State

variable {s : State} {K : String → Value → Prop} {n : ℕ} {encode decode : Value}

/-- **Publishing** is a registration, behind which the two functions are stored. -/
lemma publishing_apply (hs : s.Sound) (hn : s.heap.HasAtMost n) (hroom : n + 8 ≤ Value.payloadLimit)
    (hencode : s.Live encode) (hdecode : s.Live decode) (hkept : Admits K "base64")
    (hkeys : ∀ key ∈ ["encode", "decode"], ∀ v, ¬ K key v) :
    ∃ u, Base64.publishing encode decode s = ((registerLibrary "base64" 2 s).1, u) ∧
      (registerLibrary "base64" 2 s).2.Bears K u ∧ u.top = (registerLibrary "base64" 2 s).2.top ∧
      u.natives = s.natives ∧ u.heap.HasAtMost (n + 8) := by
  have hparts : (nameParts "base64").length = 1 := by decide +kernel
  have hsize := allots_registerLibrary "base64" 2 _ _ hn
  rw [hparts] at hsize
  obtain ⟨hprovided, hnatives, -⟩ := provided_registerLibrary 2 hs hkept (hsize.fits (by omega))
  rw [Base64.publishing, bind_apply]
  obtain ⟨p, u, hregister⟩ : ∃ p u, registerLibrary "base64" 2 s = (p, u) := ⟨_, _, rfl⟩
  rw [hregister] at hsize hprovided hnatives ⊢
  rcases p with e | table
  · exact ⟨u, rfl, .refl hprovided.bears.sound, rfl, hnatives, fun o ho => (hsize o ho).trans_le (by omega)⟩
  obtain ⟨htable, htop, hslot, -⟩ := hprovided.succeeded table rfl
  have hlive : u.Live table := hslot ▸ hprovided.bears.sound.root _ (.stack (by omega))
  have hgrows := hprovided.bears.grows
  obtain ⟨i, v, w, hintern, hset, huw, hw⟩ := exists_stored (K := K) hprovided.bears.sound hsize (by omega) hlive htable
    (hencode.mono hgrows) (hkeys "encode" (by decide))
  obtain ⟨j, x, y, hintern', hset', hwy, hy⟩ := exists_stored (K := K) huw.sound hw (by omega) (hlive.mono huw.extends)
    htable (hdecode.mono (hgrows.trans huw.extends)) (hkeys "decode" (by decide))
  have huy := huw.trans hwy
  refine ⟨y, ?_, huy.bears, by rw [huy.rest], by rw [huy.rest, ← hnatives], hy⟩
  rw [andThen_ok, bind_apply, hintern, andThen_ok, bind_apply, hset, andThen_ok, bind_apply, hintern', andThen_ok,
    bind_apply, hset', andThen_ok]
  rfl

end State

namespace Base64

open Routine

variable {σ : Type} {enter : HostProgram σ → MachineM σ Nat} {m n k : Machine σ} {r : ℕ} {K : String → Value → Prop}
  {q : Except RuntimeError Value}

/-- **The library is opened** where there is room for three values on the stack: behind the environments, it is
registered, and then its functions are stored. -/
theorem exists_established (hm : Prepared (r + 10) m) (hroom : m.state.top + 3 ≤ stackLimit)
    (hkept : State.Admits K "base64") (hkeys : ∀ key ∈ ["encode", "decode"], ∀ v, ¬ K key v)
    (hends : Ends enter openLibrary m q n) :
    ∃ t, m.state.Established K "base64" 2 t q n.state ∧ Prepared r n := by
  obtain ⟨k, encoder, e, c, houter, hends⟩ := exists_outer hm (.inl (by omega)) hends
  have hstack := houter.top
  obtain ⟨k', decoder, inner, t, hinner, hleads, hdrop, hview, hends⟩ := exists_inner houter (.inl (by omega)) hends
  obtain ⟨hk, hruns, hruns', -, -, -⟩ := hinner
  have hbefore : m.state.Bears (fun _ _ => True) k'.state :=
    (houter.leads.trans hleads).bears hm hk (hview.trans (List.append_nil _).symm)
  have hatmost := hk.hasAtMost
  have hlimit := hk.natives
  have hregister := State.allots_registerLibrary "base64" 2 _ _ hatmost
  have hparts : (State.nameParts "base64").length = 1 := by decide +kernel
  rw [hparts] at hregister
  obtain ⟨u, hpublish, hafter, htop, hnatives, hsize⟩ := State.publishing_apply hk.sound hatmost (by omega)
    (hruns.outside 0).1.live (hruns'.outside 0).1.live hkept hkeys
  obtain ⟨rfl, rfl⟩ := ((performs_publish encoder decoder).ends hpublish).unique hends
  obtain ⟨hprovided, -, hmax⟩ := State.provided_registerLibrary 2 hk.sound hkept (hregister.fits (by omega))
  refine ⟨k'.state, ⟨hbefore, by omega, hregister.fits (by omega), rfl, hafter, htop⟩, ?_⟩
  refine Prepared.of_bears (j := 8) hk (hprovided.bears.trans hafter) ?_ ?_ hsize ?_
  · rw [Machine.state_withState, htop]
    exact hmax.trans (max_le hk.top_le le_rfl)
  · exact hk.bodies.trans (congrArg Array.size hnatives).symm
  · rw [Machine.state_withState, hnatives]
    omega

/-- On a full stack the opening fails at once. -/
lemma opening_of_full (hfull : stackLimit ≤ m.state.top) (hends : Ends enter openLibrary m q n) :
    q = .error .stackOverflow ∧ n = m := by
  have hends := (ends_reading (r := .frameSize) rfl).rest hends
  obtain ⟨hq, hn⟩ := (ends_push_of_full .nil hfull).bind_error.unique hends
  exact ⟨hq.symm, hn.symm⟩

/-- What a state has become with a few more objects and values is prepared. -/
lemma Prepared.grown {t : State} {h : Heap} {l : List Value} (hm : Prepared (r + 1) m)
    (hb : m.state.Became h (m.state.view ++ l) t) (hgrows : Heap.Grows m.state.natives.size m.state.heap h)
    (hl : ∀ v ∈ l, h.Live m.state.natives.size v) (hsize : h.HasAtMost (Value.payloadLimit - (r + 1) + 1)) :
    Prepared r (m.withState t) := by
  have hroom := hm.natives
  have hsound : t.Sound := by
    refine hb.sound hm.sound hm.base_le hgrows fun v hv => ?_
    rcases List.mem_append.1 hv with hv | hv
    · exact Heap.Live.mono (live_of_mem_view hm.sound hv) hgrows.inUse le_rfl
    · exact hl v hv
  rw [← hb.heap, Heap.hasAtMost_iff] at hsize
  have hnatives : t.natives.size = m.state.natives.size := congrArg Array.size hb.natives
  exact ⟨hsound, hb.base_le, hb.top_le, hm.bodies.trans hnatives.symm, by rw [Machine.state_withState]; omega,
    by rw [Machine.state_withState]; omega, by rw [Machine.state_withState]; omega,
    by rw [Machine.state_withState]; omega, by rw [Machine.state_withState]; omega⟩

/-- With two free slots the environments are made, but the map finds no slot. -/
lemma opening_of_two_slots (hm : Prepared (r + 2) m) (hslots : m.state.top + 2 = stackLimit)
    (hends : Ends enter openLibrary m q n) :
    q = .error .stackOverflow ∧ n.state.top = stackLimit ∧ m.state.Bears K n.state ∧ Prepared r n := by
  obtain ⟨k, encoder, e, c, houter, hends⟩ := exists_outer (r := r + 1) hm (.inl (by omega)) hends
  have hk := houter.prepared
  have htop := houter.top
  obtain ⟨hgrows, hin, hinEnv, hadds⟩ := grows_withTable hk.sound.heap houter.alphabet.inUse
  have hatmost := hk.hasAtMost
  rw [Heap.hasAtMost_iff] at hatmost
  have htables := hk.tables
  have hlt : ((k.state.heap.newEnv (some e)).2.newTable alphabet.utf8ByteSize).1 < Value.payloadLimit := by
    have hlt := hin.lt_size
    have hle := k.state.heap.tables.size_alloc_le (.empty : Table)
    exact hlt.trans_le (hle.trans (by omega))
  obtain ⟨u, hb, hends⟩ := exists_withTable houter rfl rfl hlt (.inl (by omega)) hends
  have hfull := hb.top
  have hlength := (State.Became.refl hk.base_le hk.top_le).top
  rw [houter.view, List.length_append, List.length_singleton] at hlength
  simp only [List.length_append, List.length_cons, List.length_nil] at hfull
  have hpush (v : Value) : Ends enter (ask (.push v)) (k.withState u) (.error .stackOverflow) (k.withState u) :=
    ends_push_of_full v (by rw [Machine.state_withState]; omega)
  obtain ⟨rfl, rfl⟩ := (hpush _).bind_error.unique hends
  obtain ⟨hs, ht, he, hu⟩ := size_withTable k.state.heap e
  have hview : k.state.view ++ [.env (k.state.heap.newEnv (some e)).1] =
      m.state.view ++ [.env e, .env (k.state.heap.newEnv (some e)).1] := by
    rw [houter.view, List.append_assoc]
    rfl
  have hn : Prepared r (k.withState u) := by
    refine hk.grown (hview ▸ hb) hgrows (fun v hv => ?_) ?_
    · rw [List.mem_singleton.1 hv]
      exact hgrows.sound.live_value hinEnv
    · rw [Heap.hasAtMost_iff, hs, hu]
      omega
  have hleads := houter.leads.trans (leads_of_became hb (hadds.mono fun _ _ => trivial))
  exact ⟨rfl, by rw [Machine.state_withState]; omega, hleads.bears hm hn hb.view, hn⟩

/-- With one free slot the first environment finds no slot. -/
lemma opening_of_one_slot (hm : Prepared (r + 2) m) (hslots : m.state.top + 1 = stackLimit)
    (hends : Ends enter openLibrary m q n) :
    q = .error .stackOverflow ∧ n.state.top = stackLimit ∧ m.state.Bears K n.state ∧ Prepared r n := by
  have hends := (ends_reading (r := .frameSize) rfl).rest hends
  have hb := State.Became.refl hm.base_le hm.top_le
  have htop := hb.top
  obtain ⟨t, hb, hends⟩ := (gives_push hb .nil (by omega)).rest hends
  have hparent : State.parentOf (OnList.valueAt (-1) (m.state.view ++ [.nil])) = .ok none := by
    rw [OnList.valueAt_concat]
    rfl
  obtain ⟨u, hfull, hb⟩ : ∃ u, Ends enter (ask (.newClosureEnv (-1))) (m.withState t) (.error .stackOverflow)
      (m.withState u) ∧ m.state.Became (m.state.heap.newEnv none).2 (m.state.view ++ [.nil]) u :=
    ends_newClosureEnv_of_full hb hparent (by rw [List.length_append, List.length_singleton]; omega)
  obtain ⟨rfl, rfl⟩ := hfull.bind_error.unique hends
  have hgrows := (@Heap.Sound.newEnv _ _ hm.sound.heap none nofun).1
  have hwf := hm.sound.heap.orderly.wellFormed
  have hadds : m.state.heap.AddsOnly (fun _ => True) (m.state.heap.newEnv none).2 :=
    (Heap.AddsOnly.refl _).step (Heap.changesOnly_newEnv hwf hm.sound.heap.orderly.interning none)
      (hwf.envs.alloc_index _).1 trivial
  have hatmost := hm.hasAtMost
  rw [Heap.hasAtMost_iff] at hatmost
  have henvs : (m.state.heap.newEnv none).2.envs.items.size ≤ m.state.heap.envs.items.size + 1 :=
    m.state.heap.envs.size_alloc_le _
  have hn : Prepared (r + 1) (m.withState u) := by
    refine hm.grown hb hgrows (fun v hv => ?_) ?_
    · rw [List.mem_singleton.1 hv]
      exact Heap.live_of_isPlain Value.isPlain_nil
    · rw [Heap.hasAtMost_iff]
      exact ⟨by change m.state.heap.strings.items.size ≤ _; omega,
        by change m.state.heap.tables.items.size ≤ _; omega, by omega,
        by change m.state.heap.userdata.items.size ≤ _; omega⟩
  have hfull := hb.top
  rw [List.length_append, List.length_singleton] at hfull
  refine ⟨rfl, ?_, (leads_of_became hb hadds).bears hm hn hb.view, hn.mono (Nat.le_succ r)⟩
  rw [Machine.state_withState]
  omega

/-- **With one or two free slots** the opening fails, and leaves the stack full. -/
theorem opening_of_crowded (hm : Prepared (r + 2) m) (hlt : m.state.top < stackLimit)
    (hcrowded : stackLimit < m.state.top + 3) (hends : Ends enter openLibrary m q n) :
    q = .error .stackOverflow ∧ n.state.top = stackLimit ∧ m.state.Bears K n.state ∧ Prepared r n := by
  rcases Nat.lt_or_ge (m.state.top + 1) stackLimit with hroom | hroom
  · exact opening_of_two_slots hm (by omega) hends
  · exact opening_of_one_slot hm (by omega) hends

end Base64

end ScriptCore
