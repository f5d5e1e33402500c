import ScriptCore.Proofs.Base64Groups
import ScriptCore.Proofs.FrameSteps

set_option relaxedAutoImplicit false
set_option autoImplicit false

/-!
# The functions of base 64 run

The encoder finds its alphabet, and the decoder its map, in the environment it has captured. What they do with a
string in their frame is to leave the text of it, or what is read in it. The decoder fails if it cannot be read. No
byte is ever out of range, since the values of the characters have six bits.

## Main definitions

* `ScriptCore.Base64.HoldsMap` — the map of the decoder.

## Main results

* `ScriptCore.Base64.ends_decodeGroup`, `ScriptCore.Base64.ends_decodeBytes` — texts are decoded as they are read.
* `ScriptCore.Base64.gives_encode`, `ScriptCore.Base64.gives_decode`, `ScriptCore.Base64.fails_decode` — what the
  functions leave in their frame.
-/

namespace ScriptCore.Base64

open Bit32 Routine

variable {σ : Type} {enter : HostProgram σ → MachineM σ Nat} {m : Machine σ}

/-! ## Values of six bits -/

/-- The key of a character. -/
def key (c : UInt8) : Value := .number (Binary64.ofNat c.toNat)

/-- The value of a position. -/
def position (n : ℕ) : Value := .number (Binary64.ofNat n)

/-- **The map of the decoder**: each character of the alphabet has its position as value, and no other one has a
value. -/
def HoldsMap (s : State) (map : Value) : Prop :=
  ∀ c, s.rawGet map (key c) = if c ∈ codes then position (codes.idxOf c) else .nil

lemma isNaN_ofNat : ∀ n < 65, (Binary64.ofNat n).isNaN = false := by decide +kernel

lemma number?_position {n : ℕ} (h : n < 65) : (position n).number? = some (Binary64.ofNat n) :=
  Value.number?_number (isNaN_ofNat n h)

lemma toWord_ofNat : ∀ n < 64, (toWord (some (Binary64.ofNat n))).toNat = n := by decide +kernel

lemma le_ofNat : ∀ n < 65, (Binary64.ofNat 64).le (Binary64.ofNat n) = decide (64 ≤ n) := by decide +kernel

/-- A number is not nil. -/
lemma isNil_number {x : Binary64} (h : x.isNaN = false) : (Value.number x).isNil = false := by
  have hnumber := Value.number?_number h
  by_contra hnil
  rw [Bool.not_eq_false, Value.isNil, decide_eq_true_eq] at hnil
  rw [Value.number?_eq_none (by rw [hnil]; decide)] at hnumber
  cases hnumber

/-- **A character is looked up in the map.** -/
lemma ends_sextet {map : Value} (hmap : HoldsMap m.state map) (c : Option UInt8) :
    Ends enter (sextet map c) m (((valueOf c).map position).mapError m.state.raised) m := by
  cases c with
  | none => exact ends_pure _
  | some c =>
    refine (ends_reading (r := .rawGet map (key c))
      (congrArg (fun v => (Except.ok v, m.state)) (hmap c))).bind ?_
    rw [valueOf]
    by_cases hc : c ∈ codes
    · have hlt : codes.idxOf c < 65 := length_codes ▸ List.idxOf_lt_length_iff.2 hc
      rw [if_pos hc, if_pos hc, position, isNil_number (isNaN_ofNat _ hlt)]
      exact ends_pure _
    · rw [if_neg hc, if_neg hc]
      exact (ends_raise _).bind_error

lemma ends_isData {n : ℕ} (h : n < 65) :
    Ends enter (isData (position n)) m (.ok (decide (n < 64))) m := by
  have hcompare : m.state.compare? padding (position n) = some (.ok (decide (64 ≤ n))) := by
    have hpadding : padding.number? = some (Binary64.ofNat 64) := @number?_position 64 (by decide)
    rw [State.compare?, State.classify, State.classify, hpadding, number?_position h]
    simp only [le_ofNat n h]
  have hinvoke : MachineM.invoke enter (.lessEqual padding (position n)) m = (.ok (decide (64 ≤ n)), m) := by
    simp only [MachineM.invoke, MachineM.lessEqual, bind_apply, get_apply, andThen_ok, hcompare, ofExcept_apply]
    rfl
  have hnot : (!decide (64 ≤ n)) = decide (n < 64) := by
    rw [← decide_not]
    exact decide_eq_decide.2 Nat.not_le
  refine (ends_invoke hinvoke).bind ?_
  rw [hnot]
  exact ends_pure _

variable (enter m) in
lemma ends_bitsOf {n : ℕ} (h : n < 64) : ∃ w : UInt32, w.toNat = n ∧
    Ends enter (bitsOf (position n)) m (.ok w) m := by
  have hcoerce : m.state.coerceNumber (position n) = some (Binary64.ofNat n) := by
    rw [State.coerceNumber, number?_position (by omega)]
    rfl
  refine ⟨_, toWord_ofNat n h, ?_⟩
  refine (ends_reading (r := .coerceNumber (position n))
    (congrArg (fun x => (Except.ok x, m.state)) hcoerce)).bind ?_
  exact ends_pure _

lemma ends_toByte {r : UInt32} {n : ℕ} (hr : r.toNat = n) (h : n < 256) :
    Ends enter (toByte r) m (.ok (UInt8.ofNat n)) m := by
  rw [toByte, hr, if_pos h]
  exact ends_pure _

/-! ## Groups -/

lemma lt_of_valueOf {c : Option UInt8} {n : ℕ} (h : valueOf c = .ok n) : n < 65 := by
  cases c with
  | none =>
    cases h
    decide
  | some c =>
    rw [valueOf] at h
    split at h
    · next hc =>
      cases h
      exact length_codes ▸ List.idxOf_lt_length_iff.2 hc
    · cases h

/-- The part of the decoder behind the values of a group. -/
lemma ends_decodeGroup_of_values {map : Value} {c₁ c₂ c₃ c₄ : Option UInt8} {a b c d : ℕ}
    (h₁ : Ends enter (sextet map c₁) m (.ok (position a)) m) (h₂ : Ends enter (sextet map c₂) m (.ok (position b)) m)
    (h₃ : Ends enter (sextet map c₃) m (.ok (position c)) m) (h₄ : Ends enter (sextet map c₄) m (.ok (position d)) m)
    (ha : a < 65) (hb : b < 65) (hc : c < 65) (hd : d < 65) :
    Ends enter (decodeGroup map c₁ c₂ c₃ c₄) m
      (if a = 64 ∨ b = 64 then .error (m.state.raised "invalid padding") else .ok (groupBytes a b c d)) m := by
  have hdata {n : ℕ} (h : n < 64) : (!decide (n < 64)) = false := by rw [decide_eq_true h, Bool.not_true]
  have hpadding {n : ℕ} (h : n = 64) : (!decide (n < 64)) = true := by rw [h]; decide
  unfold decodeGroup
  refine h₁.bind (h₂.bind (h₃.bind (h₄.bind ((ends_isData ha).bind ?_))))
  by_cases ha' : a = 64
  · rw [if_pos (hpadding ha'), if_pos (Or.inl ha')]
    exact (ends_raise _).bind_error
  replace ha : a < 64 := by omega
  rw [if_neg (by rw [hdata ha]; decide)]
  refine (ends_isData hb).bind ?_
  by_cases hb' : b = 64
  · rw [if_pos (hpadding hb'), if_pos (Or.inr hb')]
    exact (ends_raise _).bind_error
  replace hb : b < 64 := by omega
  rw [if_neg (by rw [hdata hb]; decide), if_neg (by omega)]
  obtain ⟨wa, hwa, hbitsa⟩ := ends_bitsOf enter m ha
  obtain ⟨wb, hwb, hbitsb⟩ := ends_bitsOf enter m hb
  have hfirst := toNat_first hwa hwb ha hb
  refine hbitsa.bind (hbitsb.bind ((ends_toByte hfirst (by omega)).bind ((ends_isData hc).bind ?_)))
  rw [groupBytes]
  by_cases hc' : c = 64
  · rw [if_pos (hpadding hc'), if_pos hc']
    exact ends_pure _
  replace hc : c < 64 := by omega
  rw [if_neg hc', if_neg (by rw [hdata hc]; decide)]
  obtain ⟨wc, hwc, hbitsc⟩ := ends_bitsOf enter m hc
  have hsecond := toNat_second hwb hwc hc
  refine hbitsc.bind ((ends_toByte hsecond (by omega)).bind ((ends_isData hd).bind ?_))
  by_cases hd' : d = 64
  · rw [if_pos (hpadding hd'), if_pos hd']
    exact ends_pure _
  replace hd : d < 64 := by omega
  rw [if_neg hd', if_neg (by rw [hdata hd]; decide)]
  obtain ⟨wd, hwd, hbitsd⟩ := ends_bitsOf enter m hd
  have hthird := toNat_third hwc hwd hd
  exact hbitsd.bind ((ends_toByte hthird (by omega)).bind (ends_pure _))

/-- **A group of four characters** is decoded as it is read. -/
lemma ends_decodeGroup {map : Value} (hmap : HoldsMap m.state map) (c₁ c₂ c₃ c₄ : Option UInt8) :
    Ends enter (decodeGroup map c₁ c₂ c₃ c₄) m ((readGroup c₁ c₂ c₃ c₄).mapError m.state.raised) m := by
  have hsextet (c : Option UInt8) : Ends enter (sextet map c) m
      (((valueOf c).map position).mapError m.state.raised) m := ends_sextet hmap c
  have h₁ := hsextet c₁
  have h₂ := hsextet c₂
  have h₃ := hsextet c₃
  have h₄ := hsextet c₄
  rw [readGroup]
  -- the first character without a value ends the group
  rcases ha : valueOf c₁ with msg | a <;> rw [ha] at h₁
  · exact h₁.bind_error
  rcases hb : valueOf c₂ with msg | b <;> rw [hb] at h₂
  · exact h₁.bind h₂.bind_error
  rcases hc : valueOf c₃ with msg | c <;> rw [hc] at h₃
  · exact h₁.bind (h₂.bind h₃.bind_error)
  rcases hd : valueOf c₄ with msg | d <;> rw [hd] at h₄
  · exact h₁.bind (h₂.bind (h₃.bind h₄.bind_error))
  have hgroup := ends_decodeGroup_of_values h₁ h₂ h₃ h₄ (lt_of_valueOf ha) (lt_of_valueOf hb) (lt_of_valueOf hc)
    (lt_of_valueOf hd)
  split at hgroup
  · next h =>
    simp only [Except.bind, bind, if_pos h]
    exact hgroup
  · next h =>
    simp only [Except.bind, bind, if_neg h]
    exact hgroup

/-- **A text is decoded as it is read.** -/
theorem ends_decodeBytes {map : Value} (hmap : HoldsMap m.state map) (y : List UInt8) :
    Ends enter (decodeBytes map y) m ((readText y).mapError m.state.raised) m := by
  fun_induction readText y with
  | case1 => exact ends_pure _
  | case2 a => exact ends_decodeGroup hmap _ _ _ _
  | case3 a b => exact ends_decodeGroup hmap _ _ _ _
  | case4 a b c => exact ends_decodeGroup hmap _ _ _ _
  | case5 a b c d rest ih =>
    have hgroup : Ends enter (decodeGroup map (some a) (some b) (some c) (some d)) m _ m :=
      ends_decodeGroup hmap _ _ _ _
    rw [decodeBytes]
    rcases hread : readGroup (some a) (some b) (some c) (some d) with msg | group <;> rw [hread] at hgroup
    · exact hgroup.bind_error
    · rcases hrest : readText rest with msg | x <;> rw [hrest] at ih
      · exact hgroup.bind ih.bind_error
      · exact hgroup.bind (ih.bind (ends_pure _))

/-! ## The functions -/

section Functions

open State

variable {s : State} {h : Heap} {l : List Value}

/-- The content of a string depends on the heap only. -/
lemma bytes?_congr {t : State} (hheap : t.heap = s.heap) (v : Value) : t.bytes? v = s.bytes? v := by
  rw [bytes?, bytes?, hheap]

lemma HoldsMap.congr {t : State} {map : Value} (hmap : HoldsMap s map) (hheap : t.heap = s.heap) :
    HoldsMap t map := by
  intro c
  rw [← hmap c, rawGet, rawGet, hheap]

/-- A string is not nil. -/
lemma isNil_of_bytes? {v : Value} {x : List UInt8} (hv : s.bytes? v = some x) : v.isNil = false := by
  by_contra hnil
  rw [Bool.not_eq_false, Value.isNil, decide_eq_true_eq] at hnil
  rw [bytes?, Value.string?, Value.isString, hnil] at hv
  cases hv

/-- The bytes of the argument. -/
lemma ends_optionalBytes {v : Value} {x : List UInt8} (hb : s.Became h (v :: l) m.state)
    (hv : m.state.bytes? v = some x) : Ends enter (optionalBytes 1) m (.ok x) m := by
  have hvalue : m.state.valueAt 1 = v := by
    rw [hb.valueAt, OnList.valueAt, OnList.position?, List.length_cons, if_pos (by omega)]
    rfl
  refine (ends_reading (r := .valueAt 1) (congrArg (fun v => (Except.ok v, m.state)) hvalue)).bind ?_
  rw [isNil_of_bytes? hv]
  refine ends_reading (r := .checkBytes 1) ?_
  rw [Request.answer, checkBytes_eq, reading, hvalue, hv]
  rfl

/-- **A captured variable is read** by way of the stack. -/
lemma gives_captured {e : ℕ} (hb : s.Became h l m.state) (he : (m.state.upvalue 1).env? = some e) (slot : ℕ)
    (hroom : s.base + l.length + 2 ≤ stackLimit) :
    Gives enter (captured 0 slot) m s (h.envGet e 0 slot) h l := by
  refine .bind_of_ends (ends_reading (r := .upvalue 1) rfl) ?_
  refine (gives_push hb _ (by omega)).bind fun t hb => ?_
  refine (gives_pushCaptured hb (by rwa [OnList.valueAt_concat]) 0 slot
    (by rw [List.length_append, List.length_singleton]; omega)).bind fun t hb => ?_
  refine (gives_pop hb).bind fun t hb => (gives_pop hb).bind fun t hb => ?_
  exact gives_of_ends hb (ends_pure _)

/-- A string is made and left on top. -/
lemma gives_giveBytes (hb : s.Became h l m.state) (content : List UInt8) (hroom : s.base + l.length < stackLimit) :
    Gives enter (giveBytes content) m s 1 (h.intern content).2 (l ++ [.string (h.intern content).1]) := by
  refine (gives_intern hb content).bind fun t hb => ?_
  exact (gives_push hb _ hroom).bind fun t hb => gives_of_ends hb (ends_pure _)

/-- All values of the frame are dropped. -/
lemma gives_setTop_zero (hb : s.Became h l m.state) : Gives enter (ask (.setTop 0)) m s () h [] := by
  refine gives_setTop hb ?_
  rw [OnList.setTop, OnList.newLength, if_pos le_rfl]
  exact (if_neg (by omega)).trans (if_neg (by omega))

/-- The characters of the argument. -/
lemma ends_encodeBytes (x : List UInt8) : Ends enter
    (MonadExcept.ofExcept (encodeBytes codes.toArray x) : Routine σ (List UInt8)) m (.ok (standardText x)) m := by
  rw [encodeBytes_eq]
  exact fun _ => rfl

variable {v : Value} {x : List UInt8} {e : ℕ}

/-- **The encoder** leaves the standard text of its argument. -/
theorem gives_encode (hb : s.Became h [v] m.state) (hv : m.state.bytes? v = some x)
    (he : (m.state.upvalue 1).env? = some e)
    (hcodes : m.state.bytes? (m.state.heap.envGet e 0 alphabetSlot) = some codes) (hroom : s.base + 3 ≤ stackLimit) :
    Gives enter encode m s 1 (h.intern (standardText x)).2 [.string (h.intern (standardText x)).1] := by
  rw [hb.heap] at hcodes
  have hbase : s.base + 0 < stackLimit := by omega
  refine .bind_of_ends (ends_optionalBytes hb hv) ((gives_captured hb he alphabetSlot hroom).bind fun t hbt => ?_)
  have hread := (bytes?_congr (hbt.heap.trans hb.heap.symm) _).trans hcodes
  refine .bind_of_ends (ends_reading (r := .bytes _) (congrArg (fun c => (Except.ok c, t)) hread)) ?_
  refine (gives_setTop_zero hbt).bind fun t hbt => .bind_of_ends (ends_encodeBytes x) ?_
  exact gives_giveBytes (l := []) hbt _ hbase

section Decode

variable {y : List UInt8} (hb : s.Became h [v] m.state) (hv : m.state.bytes? v = some y)
  (he : (m.state.upvalue 1).env? = some e) (hroom : s.base + 3 ≤ stackLimit)

include hb hv he hroom

variable (enter) in
/-- The decoder comes to the characters with its map and an empty frame. -/
lemma ends_decode_of_rest : ∃ t, s.Became h [] t ∧
    ∀ {r : Except RuntimeError ℕ} {n : Machine σ},
      Ends enter (decodeBytes (h.envGet e 0 mapSlot) y >>= giveBytes) (m.withState t) r n →
        Ends enter decode m r n := by
  have hmap : Gives enter (captured 0 mapSlot) m s (h.envGet e 0 mapSlot) h [v] := gives_captured hb he mapSlot hroom
  obtain ⟨t, hcaptured, hbt⟩ := hmap
  have hempty : Gives enter (ask (.setTop 0)) (m.withState t) s () h [] := gives_setTop_zero hbt
  obtain ⟨u, htop, hbu⟩ := hempty
  exact ⟨u, hbu, fun hrest => (ends_optionalBytes hb hv).bind (hcaptured.bind (htop.bind hrest))⟩

variable (hmap : HoldsMap m.state (m.state.heap.envGet e 0 mapSlot))

include hmap

/-- **The decoder** leaves what is read in its argument. -/
theorem gives_decode (hread : readText y = .ok x) :
    Gives enter decode m s 1 (h.intern x).2 [.string (h.intern x).1] := by
  rw [hb.heap] at hmap
  obtain ⟨t, hbt, hrest⟩ := ends_decode_of_rest enter hb hv he hroom
  have hdecode : Ends enter (decodeBytes (h.envGet e 0 mapSlot) y) (m.withState t) _ (m.withState t) :=
    ends_decodeBytes (hmap.congr (hbt.heap.trans hb.heap.symm)) y
  rw [hread] at hdecode
  have hgives : Gives enter (giveBytes x) (m.withState t) s 1 (h.intern x).2 [.string (h.intern x).1] :=
    gives_giveBytes (l := []) hbt x (by rw [List.length_nil]; omega)
  obtain ⟨u, hgive, hbu⟩ := hgives
  exact ⟨u, hrest (hdecode.bind hgive), hbu⟩

/-- **The decoder fails** with what is said of its argument. -/
theorem fails_decode {message : String} (hread : readText y = .error message) :
    Fails enter decode m s (s.raised message) h := by
  rw [hb.heap] at hmap
  obtain ⟨t, hbt, hrest⟩ := ends_decode_of_rest enter hb hv he hroom
  have hdecode : Ends enter (decodeBytes (h.envGet e 0 mapSlot) y) (m.withState t) _ (m.withState t) :=
    ends_decodeBytes (hmap.congr (hbt.heap.trans hb.heap.symm)) y
  rw [hread] at hdecode
  have hraised : t.raised message = s.raised message := by
    simp only [State.raised, State.currentName?, State.current?, hbt.frames, hbt.natives]
  rw [← hraised]
  exact ⟨t, [], hrest hdecode.bind_error, hbt⟩

end Decode

end Functions

end ScriptCore.Base64
