import Mathlib
import ScriptCore.Proofs.CorrespondingActions
import ScriptCore.Proofs.HeapRuns
import ScriptCore.Proofs.OperatorDispatch

set_option relaxedAutoImplicit false
set_option autoImplicit false

/-!
# The order of strings

Strings with one handle are the same, and all others are compared byte by byte. The two rules fit together, since
a content in use has one handle only, whatever has been interned, released and interned again. So strings are
ordered as in a dictionary, and the order knows nothing of handles.

## Main definitions

* `ScriptCore.Precedes` — the order of dictionaries on sequences of bytes.
* `ScriptCore.State.IsText` — the strings in use, with their contents.
* `ScriptCore.MachineM.OrdersStrings` — comparison is a total order on strings.

## Main results

* `ScriptCore.MachineM.ordersStrings_of_arises` — the order of strings on all machines that runs come through.
-/

namespace ScriptCore

/-! ## The order of dictionaries -/

/-- **The order of dictionaries**: one sequence is the beginning of the other, or at the first place where they
differ its byte is the smaller one, as a number without sign. -/
inductive Precedes (l r : List UInt8) : Prop
  | beginning (h : l <+: r)
  | difference {common l' r' : List UInt8} {a b : UInt8} (hl : l = common ++ a :: l') (hr : r = common ++ b :: r')
    (hab : a.toNat < b.toNat)

namespace Precedes

variable {a b : UInt8} {l r : List UInt8}

lemma nil : Precedes [] r := .beginning List.nil_prefix

lemma not_cons_nil : ¬ Precedes (a :: l) [] := by
  rintro (h | ⟨-, hr, -⟩)
  · exact List.cons_ne_nil a l (List.prefix_nil.mp h)
  · exact List.append_ne_nil_of_right_ne_nil _ (List.cons_ne_nil _ _) hr.symm

/-- The first bytes decide, or what is behind them if they are the same. -/
lemma cons_iff : Precedes (a :: l) (b :: r) ↔ a < b ∨ a = b ∧ Precedes l r := by
  constructor
  · rintro (h | @⟨common, l', r', c, d, hl, hr, hcd⟩)
    · obtain ⟨hab, hlr⟩ := List.cons_prefix_cons.mp h
      exact .inr ⟨hab, .beginning hlr⟩
    · cases common with
      | nil =>
        obtain ⟨rfl, -⟩ := List.cons.inj hl
        obtain ⟨rfl, -⟩ := List.cons.inj hr
        exact .inl (UInt8.lt_iff_toNat_lt.mpr hcd)
      | cons e common =>
        obtain ⟨hae, hl⟩ := List.cons.inj hl
        obtain ⟨hbe, hr⟩ := List.cons.inj hr
        exact .inr ⟨hae.trans hbe.symm, .difference hl hr hcd⟩
  · rintro (hab | ⟨rfl, h | @⟨common, l', r', c, d, hl, hr, hcd⟩⟩)
    · exact .difference (List.nil_append _).symm (List.nil_append _).symm (UInt8.lt_iff_toNat_lt.mp hab)
    · exact .beginning (List.cons_prefix_cons.mpr ⟨rfl, h⟩)
    · exact @difference _ _ (a :: common) l' r' c d (congrArg (a :: ·) hl) (congrArg (a :: ·) hr) hcd

end Precedes

/-- Sequences of bytes are compared in the order of dictionaries. -/
theorem precedes_iff {l r : List UInt8} : Precedes l r ↔ l ≤ r := by
  induction l generalizing r with
  | nil => exact iff_of_true .nil (List.nil_le r)
  | cons a l ih =>
    cases r with
    | nil => exact iff_of_false Precedes.not_cons_nil (List.le_nil.not.mpr (List.cons_ne_nil a l))
    | cons b r => rw [Precedes.cons_iff, ih, List.cons_le_cons_iff]

/-! ## Strings in use -/

/-- A value is a string in use, with the given content. -/
structure State.IsText (s : State) (v : Value) (content : List UInt8) : Prop where
  handle : ∃ i < Value.payloadLimit, v = .string i ∧ s.heap.HoldsString i content

namespace State.IsText

variable {s : State} {v w : Value} {l r : List UInt8}

/-- A string in use has a content. -/
lemma exists_of_inUse {i : ℕ} (hlt : i < Value.payloadLimit) (hi : s.heap.InUse (.string i)) :
    ∃ content, s.IsText (.string i) content := by
  obtain ⟨content, hcontent⟩ := hi.exists_get?
  exact ⟨content, ⟨i, hlt, rfl, hi, hcontent⟩⟩

/-- A content that is interned is that of a string in use, -/
lemma of_intern (hi : s.heap.Interning) (content : List UInt8)
    (hroom : s.heap.strings.items.size < Value.payloadLimit) :
    (internBytes content s).2.IsText (.string (s.heap.intern content).1) content :=
  ⟨_, s.heap.index_intern_lt hi content hroom, rfl, hi.holdsString_index content⟩

/-- and the strings there are stay in use. -/
lemma mono_intern (hi : s.heap.Interning) (content : List UInt8) (hv : s.IsText v l) :
    (internBytes content s).2.IsText v l := by
  obtain ⟨i, hlt, rfl, hl⟩ := hv
  exact ⟨i, hlt, rfl, (hi.holdsString_intern content).2 (.inr hl)⟩

/-- Strings are raw equal exactly if their contents are the same. -/
lemma rawEqual_iff (hi : s.heap.Interning) (hv : s.IsText v l) (hw : s.IsText w r) :
    v.rawEqual w = true ↔ l = r := by
  obtain ⟨i, hlti, rfl, hl⟩ := hv
  obtain ⟨j, hltj, rfl, hr⟩ := hw
  rw [Heap.rawEqual_string_iff hlti hltj]
  constructor
  · rintro rfl
    exact hl.content_unique hr
  · rintro rfl
    exact hi.handle_unique hl hr

/-- Strings in use are compared by their contents. -/
lemma compare? (hv : s.IsText v l) (hw : s.IsText w r) : s.compare? v w = some (.ok (decide (l ≤ r))) := by
  obtain ⟨i, hlti, rfl, hl⟩ := hv
  obtain ⟨j, hltj, rfl, hr⟩ := hw
  rw [MachineM.compare?_strings (Value.string?_string hlti) (Value.string?_string hltj), hl.content, hr.content]

end State.IsText

namespace MachineM

variable {σ : Type} {m : Machine σ} {enter : HostProgram σ → MachineM σ ℕ} {v w : Value} {l r : List UInt8}

/-- One value is below another or equal to it, as the machine finds. -/
def LessEqual (enter : HostProgram σ → MachineM σ ℕ) (m : Machine σ) (v w : Value) : Prop :=
  lessEqual enter v w m = (.ok true, m)

/-- **Comparison is a total order on the strings in use**, whatever functions there are. -/
structure OrdersStrings (enter : HostProgram σ → MachineM σ ℕ) (m : Machine σ) : Prop where
  /-- Every string in use has a content. -/
  text : ∀ i < Value.payloadLimit, m.state.heap.InUse (.string i) → ∃ content, m.state.IsText (.string i) content
  /-- The comparison of strings never fails and changes nothing. Its answer is that of the dictionary on their
  contents. -/
  dictionary : ∀ v w l r, m.state.IsText v l → m.state.IsText w r →
    ∃ answer, lessEqual enter v w m = (.ok answer, m) ∧ (answer = true ↔ Precedes l r)
  refl : ∀ v l, m.state.IsText v l → LessEqual enter m v v
  trans : ∀ u v w k l r, m.state.IsText u k → m.state.IsText v l → m.state.IsText w r →
    LessEqual enter m u v → LessEqual enter m v w → LessEqual enter m u w
  total : ∀ v w l r, m.state.IsText v l → m.state.IsText w r → LessEqual enter m v w ∨ LessEqual enter m w v
  /-- Strings below each other are raw equal, and no others are. -/
  rawEqual_iff : ∀ v w l r, m.state.IsText v l → m.state.IsText w r →
    (v.rawEqual w = true ↔ LessEqual enter m v w ∧ LessEqual enter m w v)
  /-- On any other machine strings with the same contents are compared with the same answer, whatever handles they
  have there. -/
  handles : ∀ {τ : Type} (enter' : HostProgram τ → MachineM τ ℕ) (n : Machine τ) (v w v' w' : Value)
    (l r : List UInt8), m.state.IsText v l → m.state.IsText w r → n.state.IsText v' l → n.state.IsText w' r →
      (lessEqual enter v w m).1 = (lessEqual enter' v' w' n).1

/-- Strings in use are compared at once. -/
lemma lessEqual_of_isText (hv : m.state.IsText v l) (hw : m.state.IsText w r) :
    lessEqual enter v w m = (.ok (decide (l ≤ r)), m) :=
  lessEqual_of_compare (hv.compare? hw)

lemma lessEqual_iff_of_isText (hv : m.state.IsText v l) (hw : m.state.IsText w r) :
    LessEqual enter m v w ↔ l ≤ r := by
  rw [LessEqual, lessEqual_of_isText hv hw, Prod.mk.injEq, Except.ok.injEq, decide_eq_true_eq]
  exact and_iff_left rfl

/-- **The order of strings.** On every machine a run comes through, whatever has been interned and collected,
comparison is a total order on the strings in use: that of the dictionary on their contents. It does not depend on
their handles, and strings below each other are raw equal.

**Proof sketch.** Every request keeps the map of interned contents in agreement with the strings in use, so strings
with the same content have the same handle. Hence the answer given for one handle is that of the contents, too, and
the laws of an order are those of the order of dictionaries. -/
theorem ordersStrings_of_arises (enter : HostProgram σ → MachineM σ ℕ) {m : Machine σ} (hm : m.Arises) :
    OrdersStrings enter m := by
  have hi := Heap.lasting_interning.of_arises State.sound_new.heap.orderly.interning hm
  refine ⟨fun i hlt hin => State.IsText.exists_of_inUse hlt hin,
    fun v w l r hv hw => ⟨_, lessEqual_of_isText hv hw, decide_eq_true_iff.trans precedes_iff.symm⟩,
    fun v l hv => ?_, fun u v w k l r hu hv hw huv hvw => ?_, fun v w l r hv hw => ?_, fun v w l r hv hw => ?_,
    fun enter' n v w v' w' l r hv hw hv' hw' => ?_⟩
  · rw [lessEqual_iff_of_isText hv hv]
    exact List.le_refl l
  · rw [lessEqual_iff_of_isText hu hv] at huv
    rw [lessEqual_iff_of_isText hv hw] at hvw
    rw [lessEqual_iff_of_isText hu hw]
    exact List.le_trans huv hvw
  · rw [lessEqual_iff_of_isText hv hw, lessEqual_iff_of_isText hw hv]
    exact List.le_total l r
  · rw [lessEqual_iff_of_isText hv hw, lessEqual_iff_of_isText hw hv, hv.rawEqual_iff hi hw]
    constructor
    · rintro rfl
      exact ⟨List.le_refl l, List.le_refl l⟩
    · rintro ⟨hlr, hrl⟩
      exact List.le_antisymm hlr hrl
  · rw [lessEqual_of_isText hv hw, lessEqual_of_isText hv' hw']

/-- A program that makes a string, lets a collection release it, and makes two strings more. -/
def remaking : HostProgram Unit :=
  .ask (.intern [0x62]) fun _ => .ask .collect fun _ => .ask (.intern [0x61, 0xff]) fun _ =>
    .ask (.intern [0x61]) fun _ => .done 0

/-- Behind the program `remaking`, the string that has been made last comes first in the dictionary. The other one
is longer, and no UTF-8. -/
theorem ordersStrings_remaking : ∃ (m : Machine Unit) (v w : Value), m.Arises ∧
    m.state.IsText v [0x61, 0xff] ∧ m.state.IsText w [0x61] ∧
    OrdersStrings (HostProgram.runWithin State.maxFrames) m ∧
    LessEqual (HostProgram.runWithin State.maxFrames) m w v ∧
    ¬ LessEqual (HostProgram.runWithin State.maxFrames) m v w := by
  obtain ⟨s₁, hs₁⟩ : ∃ s, (State.internBytes [0x62] .new).2 = s := ⟨_, rfl⟩
  obtain ⟨s₂, hs₂⟩ : ∃ s, (State.internBytes [0x61, 0xff] s₁.collect).2 = s := ⟨_, rfl⟩
  obtain ⟨s₃, hs₃⟩ : ∃ s, (State.internBytes [0x61] s₂).2 = s := ⟨_, rfl⟩
  have harises : ((Machine.new ()).withState s₃).Arises := by
    subst hs₃ hs₂ hs₁
    exact ⟨(), 0, remaking, 0, .done 0, .step rfl (.step rfl (.step rfl (.step rfl .start)))⟩
  -- the arena of strings stays small
  have hsound : s₁.heap.Sound 0 := hs₁ ▸ (State.sound_new.heap.intern [0x62]).1.sound
  have hfew : s₁.heap.HasAtMost 5 := hs₁ ▸ State.hasAtMost_new.intern [0x62]
  have hfew₁ := State.hasAtMost_collect hsound.orderly.wellFormed hsound.orderly.unmarked hfew
  have hfew₂ : s₂.heap.HasAtMost 6 := hs₂ ▸ hfew₁.intern [0x61, 0xff]
  have hi₁ := State.interning_collect hsound.orderly.interning
  have hi₂ : s₂.heap.Interning := hs₂ ▸ hi₁.intern [0x61, 0xff]
  have hroom {h : Heap} {n : ℕ} (hn : h.HasAtMost n) (hlt : n < Value.payloadLimit) :
      h.strings.items.size < Value.payloadLimit :=
    (Nat.le_of_not_lt fun hentry => (hn (.string n) hentry).false).trans_lt hlt
  -- so both strings have handles
  have hv : s₂.IsText _ [0x61, 0xff] := hs₂ ▸ State.IsText.of_intern hi₁ _ (hroom hfew₁ (by decide))
  have hv₃ : s₃.IsText _ [0x61, 0xff] := hs₃ ▸ hv.mono_intern hi₂ [0x61]
  have hw : s₃.IsText _ [0x61] := hs₃ ▸ State.IsText.of_intern hi₂ _ (hroom hfew₂ (by decide))
  have horder := ordersStrings_of_arises (HostProgram.runWithin State.maxFrames) harises
  refine ⟨_, _, _, harises, hv₃, hw, horder, ?_, ?_⟩
  · exact (lessEqual_iff_of_isText hw hv₃).2 (by decide)
  · exact fun h => absurd ((lessEqual_iff_of_isText hv₃ hw).1 h) (by decide)

end MachineM

end ScriptCore
