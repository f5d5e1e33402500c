import ScriptCore.Proofs.Base64Opening

set_option relaxedAutoImplicit false
set_option autoImplicit false

/-!
# Encoding and decoding

Wherever the library has been opened, and what its functions have captured has not been touched, the encoder
answers with the standard text of what it is called with, and the decoder reads it back, before and behind
collections.

## Main definitions

* `ScriptCore.Base64.Ready` — machines in which the functions can be called.
* `ScriptCore.Base64.RoundTrips` — what is encoded is decoded again.

## Main results

* `ScriptCore.Base64.Ready.roundTrips` — in machines in which the functions can be called.
* `ScriptCore.Base64.roundTrips_of_opened` — behind an opening.
-/

namespace ScriptCore

/-- Behind the making of a string there is a handle for every entry, if there is one more for a string. -/
lemma Heap.Fits.intern {h : Heap} (hfits : h.Fits) (c : List UInt8)
    (hroom : h.strings.items.size < Value.payloadLimit) : (h.intern c).2.Fits := by
  have hle := h.size_strings_intern_le c
  intro o ho
  cases o with
  | string i => exact lt_of_lt_of_le ho (by omega)
  | table i =>
    rw [Heap.HasEntry, h.tables_intern c] at ho
    exact hfits (.table i) ho
  | env i =>
    rw [Heap.HasEntry, h.envs_intern c] at ho
    exact hfits (.env i) ho
  | userdata i =>
    rw [Heap.HasEntry, h.userdata_intern c] at ho
    exact hfits (.userdata i) ho

namespace Base64

open Routine

variable {σ : Type} {enter : HostProgram σ → MachineM σ Nat} {m n k : Machine σ} {encoder decoder table : Value}
  {r : ℕ}

/-! ## Calls in a sequence -/

/-- **The functions can be called**: the library is installed, there is no dangling handle and a handle for every
entry, and there is room for a call, with `r` more strings. -/
structure Ready (r : ℕ) (encoder decoder : Value) (m : Machine σ) : Prop where
  installed : Installed encoder decoder m
  sound : m.state.Sound
  fits : m.state.heap.Fits
  room : HasRoom r m

/-- Behind a collection the functions can be called. -/
lemma Ready.collect (h : Ready r encoder decoder m) : Ready r encoder decoder (m.withState m.state.collect) := by
  have ho := h.sound.heap.orderly
  have hc := (m.state.collect_exact ho.wellFormed ho.unmarked).1
  have hbase : m.state.collect.base = m.state.base := by rw [State.base, hc.frames, State.base]
  obtain ⟨hstrings, hle, hstack, hframes⟩ := h.room
  refine ⟨h.installed.untouched (untouched_collect _ h.sound), h.sound.collect h.fits,
    fun o hentry => h.fits o ?_, ?_, ?_, ?_, ?_⟩ <;> rw [Machine.state_withState] at *
  · cases o <;> simp only [Heap.HasEntry, hc.strings.size, hc.tables.size, hc.envs.size, hc.userdata.size] at * <;>
      exact hentry
  · rwa [hc.strings.size]
  · rwa [hbase, hc.top]
  · rwa [hc.top]
  · rwa [hc.frames]

/-- Behind any number of collections the functions can be called, in the same frame. -/
lemma Ready.iterate_collect (h : Ready r encoder decoder m) (collections : ℕ) :
    Ready r encoder decoder (m.withState (State.collect^[collections] m.state)) ∧
      (State.collect^[collections] m.state).view = m.state.view := by
  induction collections generalizing m with
  | zero => exact ⟨h, rfl⟩
  | succ collections ih => exact ih h.collect

/-- Behind an answer the functions can be called, as long as there is room for strings. -/
lemma Ready.answered (h : Ready (r + 2) encoder decoder m) {c d : List UInt8} {t : State}
    (hb : m.state.Became ((m.state.heap.intern c).2.intern d).2 m.state.view t) :
    Ready r encoder decoder (m.withState t) := by
  obtain ⟨hinstalled, hs, hfits, hstrings, hle, hstack, hframes⟩ := h
  have hle₁ := m.state.heap.size_strings_intern_le c
  have hle₂ := (m.state.heap.intern c).2.size_strings_intern_le d
  have hfirst := (hs.heap.intern c).1
  have hsecond := (hfirst.sound.intern d).1
  have hgrows : Heap.Grows m.state.natives.size m.state.heap ((m.state.heap.intern c).2.intern d).2 :=
    ⟨hsecond.sound, fun o ho => hsecond.inUse o (hfirst.inUse o ho)⟩
  have htop := hb.top_eq hle
  -- both strings have been made beside what the functions have captured
  have huntouched : Untouched [encoder, decoder] m (m.withState t) := by
    refine untouched_of_sameEntry _ hs hb.natives fun o ho => ?_
    have ho₁ := Heap.sameEntry_intern hs.heap.orderly.wellFormed hs.heap.orderly.interning c ho
    have ho₂ := Heap.sameEntry_intern hfirst.sound.orderly.wellFormed hfirst.sound.orderly.interning d
      (hfirst.inUse _ ho)
    rw [hb.heap]
    cases o <;> exact Eq.trans ho₂ ho₁
  refine ⟨hinstalled.untouched huntouched, ?_, ?_, ?_, hb.base_le, ?_, ?_⟩ <;> rw [Machine.state_withState]
  · refine hb.sound hs hle hgrows fun v hv => ?_
    exact Heap.Live.mono (live_of_mem_view hs hv) hgrows.inUse le_rfl
  · rw [hb.heap]
    exact (hfits.intern c (by omega)).intern d (by omega)
  · rw [hb.heap]
    omega
  · rwa [htop]
  · rwa [hb.frames]

/-! ## Round trips -/

/-- **What is encoded is decoded again.** The text of the bytes `x` has four characters for every three bytes,
rounded up. They are among the 64 digits of the alphabet, apart from up to two padding characters behind them, of
which there are none if the number of bytes is a multiple of three. The encoder answers with this text, and behind
that and any number of collections the decoder answers with the bytes when it is called with the text, also without
some of the padding. Neither leaves anything in the frame. -/
structure RoundTrips (levels : ℕ) (encoder decoder : Value) (m : Machine σ) (x : List UInt8) : Prop where
  length : (standardText x).length = 4 * ((x.length + 2) / 3)
  characters : ∃ body padding, standardText x = body ++ List.replicate padding paddingByte ∧
    (∀ c ∈ body, c ∈ codes.take 64) ∧ padding ≤ 2 ∧ (padding = 0 ↔ 3 ∣ x.length)
  encodes : ∃ t, answer levels encoder x m = (.ok (some (standardText x)), m.withState t) ∧
    t.view = m.state.view ∧
    ∀ y j, standardText x = y ++ List.replicate j paddingByte → ∀ collections : ℕ,
      ∃ u, answer levels decoder y (m.withState (State.collect^[collections] t)) = (.ok (some x), m.withState u) ∧
        u.view = m.state.view

/-- Round trips in machines in which the functions can be called. -/
theorem Ready.roundTrips (h : Ready 4 encoder decoder m) (levels : ℕ) (x : List UInt8) :
    RoundTrips levels encoder decoder m x := by
  obtain ⟨t, hencode, hb⟩ := h.installed.answer_encode h.sound (h.room.mono (by decide)) levels x
  have hbehind : Ready 2 encoder decoder (m.withState t) := h.answered hb
  refine ⟨length_standardText x, ?_, t, hencode, hb.view, fun y j hy collections => ?_⟩
  · obtain ⟨body, htext, hbody⟩ := exists_standardText_eq x
    refine ⟨body, paddingCount x.length, htext, hbody, ?_, ?_⟩ <;> rw [paddingCount]
    · omega
    · rw [Nat.dvd_iff_mod_eq_zero]
      omega
  · obtain ⟨hready, hview⟩ := hbehind.iterate_collect collections
    obtain ⟨u, hdecode, hbu⟩ := hready.installed.answer_decode hready.sound hready.room levels
      (readText_of_standardText x y j hy)
    exact ⟨u, hdecode, hbu.view.trans (hview.trans hb.view)⟩

/-- **Behind an opening of the library** its table has an encoder and a decoder, and whatever is done to the machine
after that, as long as what these have captured is not touched, there is no dangling handle, and there is room for a
call: behind any number of collections, what is encoded is decoded again.

**Proof sketch.** The opening leaves the alphabet and the map in the environments of the two functions. A collection
touches nothing that can be reached, and an answer adds strings only, so that the library stays installed. -/
theorem roundTrips_of_opened (hm : Prepared 10 m) (hopen : Ends enter openLibrary m (.ok table) n) :
    ∃ encoder decoder, State.field table "encode" n.state = (.ok encoder, n.state) ∧
      State.field table "decode" n.state = (.ok decoder, n.state) ∧
      ∀ k : Machine σ, Untouched [encoder, decoder] n k → k.state.Sound → k.state.heap.Fits → HasRoom 4 k →
        ∀ (collections levels : ℕ) (x : List UInt8),
          RoundTrips levels encoder decoder (k.withState (State.collect^[collections] k.state)) x := by
  obtain ⟨encoder, decoder, ho⟩ := exists_opened (r := 0) hm hopen
  refine ⟨encoder, decoder, ho.encode, ho.decode, fun k hu hs hfits hroom collections levels x => ?_⟩
  have hready : Ready 4 encoder decoder k := ⟨ho.installed.untouched hu, hs, hfits, hroom⟩
  exact (hready.iterate_collect collections).1.roundTrips levels x

/-- The library is opened on a new machine, and a byte is encoded and decoded behind a collection. -/
theorem roundTrips_of_opened_new : ∃ (table : Value) (n : Machine Unit) (encoder decoder : Value),
    Prepared 10 (Machine.new ()) ∧ Ends (HostProgram.runWithin 1) openLibrary (Machine.new ()) (.ok table) n ∧
      State.field table "encode" n.state = (.ok encoder, n.state) ∧
      (Untouched [encoder, decoder] n n ∧ n.state.Sound ∧ n.state.heap.Fits ∧ HasRoom 4 n) ∧
      RoundTrips 1 encoder decoder (n.withState (State.collect^[1] n.state)) [0xff] := by
  have hm : Prepared 10 (Machine.new ()) := prepared_new () (by decide)
  obtain ⟨table, n, hopen, ⟨_, _, ho⟩, hroom⟩ := exists_opened_new ()
  obtain ⟨encoder, decoder, hencoder, -, htrips⟩ := roundTrips_of_opened hm hopen
  have huntouched := Untouched.refl [encoder, decoder] n
  exact ⟨table, n, encoder, decoder, hm, hopen, hencoder, ⟨huntouched, ho.sound, ho.fits, hroom⟩,
    htrips n huntouched ho.sound ho.fits hroom 1 1 [0xff]⟩

end Base64

end ScriptCore
