import Mathlib
import ScriptCore.Proofs.BinaryValues
import ScriptCore.Proofs.LossyDecoding
import ScriptCore.Proofs.NumeralTexts
import ScriptCore.Proofs.Relexing
import ScriptCore.Proofs.StringOrder

set_option relaxedAutoImplicit false
set_option autoImplicit false

/-!
# Literals and texts are the same numbers

A numeral is read as a literal of a source, and as a text that stands where a number is wanted. The first reader
leaves out underscores and knows of named numbers, the second one trims blanks and takes off a sign. On what the lexer
cuts out of a source they agree: such a numeral begins with a digit or a point, and nothing in it is blank.

## Main definitions

* `ScriptCore.Numeral.ungrouped` — a numeral without its underscores.
* `ScriptCore.Numeral.Denotes` — a numeral stands for a number, whichever way it is read.

## Main results

* `ScriptCore.Numeral.denotes_of_tokenize` — the numerals of a source.
-/

namespace ScriptCore

namespace Numeral

open Text

/-! ## What both readers share -/

/-- A decimal numeral or a named number, with a sign in front or none. -/
def float? (cs : List Char) : Option Binary64 :=
  ((decimal? (splitSign cs).2) <|> (named? (splitSign cs).2)).map (withSign (splitSign cs).1)

/-- The value of a literal without underscores. -/
def plain? (cs : List Char) : Option Binary64 :=
  match stripHexMark? cs with
  | some digits => (hexadecimal? digits).map Binary64.ofNat
  | none => float? cs

/-- The first character is a digit or a point. -/
def BeginsNumeral (cs : List Char) : Prop := ∃ c rest, cs = c :: rest ∧ (isDecimal c = true ∨ c = '.')

/-- A numeral without its underscores. -/
def ungrouped (text : String) : String := String.ofList (text.toList.filter (· != '_'))

lemma literal?_eq (text : String) : literal? text = plain? (ungrouped text).toList := by
  rw [ungrouped, String.toList_ofList]
  rfl

section BeginsNumeral

variable {cs : List Char}

lemma BeginsNumeral.splitSign_eq (h : BeginsNumeral cs) : splitSign cs = (false, cs) := by
  obtain ⟨c, rest, rfl, hc⟩ := h
  unfold splitSign
  split
  · next heq =>
    obtain ⟨rfl, -⟩ := List.cons.inj heq
    exact absurd hc (by decide)
  · next heq =>
    obtain ⟨rfl, -⟩ := List.cons.inj heq
    exact absurd hc (by decide)
  · rfl

/-- Underscores are left out behind the first character. -/
lemma BeginsNumeral.filter (h : BeginsNumeral cs) : BeginsNumeral (cs.filter (· != '_')) := by
  obtain ⟨c, rest, rfl, hc⟩ := h
  have hne : c ≠ '_' := by
    rintro rfl
    exact absurd hc (by decide)
  exact ⟨c, rest.filter (· != '_'), by simp [hne], hc⟩

/-- No named number begins like a numeral. -/
lemma BeginsNumeral.named?_eq_none (h : BeginsNumeral cs) : named? cs = none := by
  obtain ⟨c, rest, rfl, hc⟩ := h
  have hlower : c.toLower ∉ ['i', 'n'] := by
    have hmem : c ∈ '.' :: decimalDigits := by
      rw [List.mem_cons, ← isDecimal_iff]
      exact hc.symm
    have hall : ∀ d ∈ '.' :: decimalDigits, d.isUpper = false ∧ d ∉ ['i', 'n'] := by simp [decimalDigits]
    rw [Char.toLower_eq_of_not_isUpper (Bool.eq_false_iff.mp (hall c hmem).1)]
    exact (hall c hmem).2
  have hne : ∀ {d : Char} {name : List Char}, d ∈ ['i', 'n'] →
      String.ofList ((c :: rest).map Char.toLower) ≠ String.ofList (d :: name) := by
    intro d name hd heq
    rw [String.ofList_inj, List.map_cons, List.cons.injEq] at heq
    rw [← heq.1] at hd
    exact hlower hd
  have hinf : String.ofList ((c :: rest).map Char.toLower) ≠ "inf" := hne (by decide)
  have hinfinity : String.ofList ((c :: rest).map Char.toLower) ≠ "infinity" := hne (by decide)
  have hnan : String.ofList ((c :: rest).map Char.toLower) ≠ "nan" := hne (by decide)
  rw [named?, if_neg (not_or.mpr ⟨hinf, hinfinity⟩), if_neg hnan]

/-- So only decimal numerals are left to the reader of literals. -/
lemma BeginsNumeral.float?_eq (h : BeginsNumeral cs) : float? cs = decimal? cs := by
  rw [float?, h.splitSign_eq, h.named?_eq_none]
  cases decimal? cs <;> rfl

end BeginsNumeral

/-- A text of blanks. -/
def IsBlankText (text : String) : Prop := ∀ c ∈ text.toList, isBlank c = true

/-- The mark of a negative number. -/
def minus (negative : Bool) : String := if negative then "-" else ""

/-- **The two readers agree** on what begins like a numeral and has no blanks, whatever is read around it. -/
theorem ofText?_eq_plain? {text before after : String} (h : BeginsNumeral text.toList)
    (hblank : ∀ c ∈ text.toList, isBlank c = false) (negative : Bool) (hbefore : IsBlankText before)
    (hafter : IsBlankText after) :
    ofText? (before ++ minus negative ++ text ++ after) = (plain? text.toList).map (withSign negative) := by
  have hne : text.toList ≠ [] := by
    obtain ⟨c, rest, heq, -⟩ := h
    exact heq ▸ List.cons_ne_nil c rest
  have htrim : trim (before ++ minus negative ++ text ++ after).toList = (minus negative).toList ++ text.toList := by
    rw [String.toList_append, String.toList_append, String.toList_append, List.append_assoc before.toList]
    apply trim_append hbefore hafter (List.append_ne_nil_of_right_ne_nil _ hne)
    intro c hc
    rcases List.mem_append.mp hc with hc | hc
    · cases negative with
      | false => cases hc
      | true =>
        obtain rfl := List.mem_singleton.mp hc
        decide
    · exact hblank c hc
  have hsplit : splitSign ((minus negative).toList ++ text.toList) = (negative, text.toList) := by
    cases negative with
    | false => exact h.splitSign_eq
    | true => rfl
  simp only [ofText?, htrim, hsplit, plain?, h.float?_eq]
  cases stripHexMark? text.toList with
  | some digits => rw [Option.map_map]; rfl
  | none => rfl

/-! ## Numbers that are read -/

/-- No fraction is rounded to a NaN. -/
lemma isNaN_ofRatio (negative : Bool) (num den : ℕ) : (Binary64.ofRatio negative num den).isNaN = false := by
  have hbound : ∀ m ≤ Binary64.infiniteMagnitude, (Binary64.ofSignMagnitude negative m).isNaN = false := by
    intro m hm
    have hlt : m < Binary64.signWeight := lt_of_le_of_lt hm (by decide)
    rw [Binary64.isNaN, Binary64.magnitude_ofSignMagnitude hlt]
    exact decide_eq_false hm.not_gt
  unfold Binary64.ofRatio
  split_ifs
  · exact hbound 0 (Nat.zero_le _)
  · exact hbound _ (Nat.min_le_right _ _)

lemma isNaN_ofDecimal (digits : List Char) (exponent : ℤ) : (ofDecimal digits exponent).isNaN = false := by
  simp only [ofDecimal]
  split_ifs
  · decide
  · decide
  · decide
  · exact isNaN_ofRatio false _ _

/-- What begins like a numeral is no NaN. -/
lemma BeginsNumeral.isNaN_eq_false {cs : List Char} (h : BeginsNumeral cs) {x : Binary64} (hx : plain? cs = some x) :
    x.isNaN = false := by
  rw [plain?] at hx
  split at hx
  · obtain ⟨n, -, rfl⟩ := Option.map_eq_some_iff.mp hx
    exact isNaN_ofRatio false n 1
  · rw [h.float?_eq, decimal?] at hx
    simp only at hx
    split at hx
    all_goals
      split_ifs at hx
      obtain ⟨e, -, rfl⟩ := Option.map_eq_some_iff.mp hx
      exact isNaN_ofDecimal _ _

end Numeral

/-! ## What the lexer cuts out -/

namespace Lexer

open Numeral

lemma isBlank_of_isNumeralPart {c : Char} (h : isNumeralPart c = true) : Text.isBlank c = false := by
  have hlt : c.toNat < 128 := by
    simp only [isNumeralPart, isHexPart, isDecimalPart, Bool.or_eq_true, decide_eq_true_eq] at h
    rcases h with ((h | rfl) | ((h | rfl) | rfl)) | h
    · exact toNat_lt_of_isHexadecimal h
    · decide
    · exact toNat_lt_of_isHexadecimal (by simp [isHexadecimal, h])
    · decide
    · decide
    · exact (by simp : ∀ d ∈ ['x', 'X', '+', '-'], d.toNat < 128) c h
  have hvisible : ∀ n < 128, isNumeralPart (Char.ofNat n) = true → 33 ≤ n ∧ n ≤ 126 := by decide +kernel
  apply isBlank_of_visible
  apply hvisible c.toNat hlt
  rwa [Char.ofNat_toNat]

/-- A numeral is cut out of a source with its first character. -/
lemma beginsNumeral_numeralText {c : Char} {cs : List Char} (h : startsNumeral c cs = true) :
    BeginsNumeral (numeralText (c :: cs)) := by
  obtain ⟨rest, hrest, -⟩ := numeralText_cons h
  refine ⟨c, rest, hrest, ?_⟩
  rw [startsNumeral, Bool.or_eq_true, Bool.and_eq_true, decide_eq_true_eq] at h
  exact h.imp_right And.left

end Lexer

/-! ## The numerals of a source -/

namespace Numeral

open Text

/-- **A numeral stands for a number**, whichever way it is read. -/
structure Denotes (lexeme : String) (x : Binary64) : Prop where
  /-- As a literal of a source. -/
  literal : literal? lexeme = some x
  /-- As a text, without its underscores. -/
  ungrouped : ofText? (ungrouped lexeme) = some x
  /-- As a text with blanks around it, if there are no underscores in it, -/
  text : '_' ∉ lexeme.toList → ∀ before after, IsBlankText before → IsBlankText after →
    ofText? (before ++ lexeme ++ after) = some x
  /-- and with a minus in front of it, as the opposite number. -/
  opposite : '_' ∉ lexeme.toList → ∀ before after, IsBlankText before → IsBlankText after →
    ofText? (before ++ "-" ++ lexeme ++ after) = some x.neg
  /-- The negation of a string of this text is the negation of the number, on every machine. -/
  negation : '_' ∉ lexeme.toList → ∀ before after, IsBlankText before → IsBlankText after →
    ∀ {σ : Type} (enter : HostProgram σ → MachineM σ ℕ) (m : Machine σ) (v : Value),
      m.state.IsText v (bytes (before ++ lexeme ++ after)) →
      MachineM.negate enter v m = (.ok (.number x.neg), m) ∧
      MachineM.negate enter (.number x) m = (.ok (.number x.neg), m)

/-- Bytes of a text are read as this text. -/
lemma ofBytes?_bytes (text : String) : ofBytes? (bytes text) = some text := by
  have harray : (⟨(bytes text).toArray⟩ : ByteArray) = text.toByteArray := by
    rw [bytes_eq, ← String.utf8Encode_toList, List.utf8Encode, ByteArray.ext_iff, List.data_toByteArray]
  rw [ofBytes?, harray, String.fromUTF8?, dif_pos text.isValidUTF8]
  rfl

/-- Negation gives the opposite of the number that a value stands for. -/
lemma negate_of_standsFor {σ : Type} {enter : HostProgram σ → MachineM σ ℕ} {m : Machine σ} {v : Value} {x : Binary64}
    (h : m.state.StandsFor v x) : MachineM.negate enter v m = (.ok (.number x.neg), m) := by
  rw [MachineM.negate_apply, State.negatePlan, State.standsFor_iff.mp h]
  rfl

/-- A string in use stands for the number of its text. -/
lemma standsFor_of_isText {s : State} {v : Value} {text : String} {x : Binary64} (hv : s.IsText v (bytes text))
    (hx : ofText? text = some x) : s.StandsFor v x := by
  obtain ⟨i, hlt, rfl, hcontent⟩ := hv
  exact .numeral (Value.string?_string hlt) hcontent.content (ofBytes?_bytes text) hx

lemma ungrouped_eq_self {text : String} (h : '_' ∉ text.toList) : Numeral.ungrouped text = text := by
  have hfilter : text.toList.filter (· != '_') = text.toList := by
    rw [List.filter_eq_self]
    rintro c hc
    simpa using fun heq : c = '_' => h (heq ▸ hc)
  rw [Numeral.ungrouped, hfilter, String.ofList_toList]

/-- What begins like a numeral and has no blanks stands for a number, if it is read as a literal. -/
theorem denotes_of_literal? {lexeme : String} {x : Binary64} (hbegins : BeginsNumeral lexeme.toList)
    (hblank : ∀ c ∈ lexeme.toList, isBlank c = false) (hx : literal? lexeme = some x) : Denotes lexeme x := by
  rw [literal?_eq] at hx
  have hbegins' : BeginsNumeral (Numeral.ungrouped lexeme).toList := by
    rw [Numeral.ungrouped, String.toList_ofList]
    exact hbegins.filter
  have hblank' : ∀ c ∈ (Numeral.ungrouped lexeme).toList, isBlank c = false := by
    rw [Numeral.ungrouped, String.toList_ofList]
    exact fun c hc => hblank c (List.mem_of_mem_filter hc)
  have hread (negative : Bool) {before after : String} (hbefore : IsBlankText before) (hafter : IsBlankText after) :
      ofText? (before ++ minus negative ++ Numeral.ungrouped lexeme ++ after) = some (withSign negative x) := by
    rw [ofText?_eq_plain? hbegins' hblank' negative hbefore hafter, hx, Option.map_some]
  have htext (hplain : '_' ∉ lexeme.toList) {before after : String} (hbefore : IsBlankText before)
      (hafter : IsBlankText after) : ofText? (before ++ lexeme ++ after) = some x := by
    have hsigned := hread false hbefore hafter
    rwa [ungrouped_eq_self hplain, minus, if_neg Bool.false_ne_true, String.append_empty] at hsigned
  refine ⟨(literal?_eq lexeme).trans hx, ?_, fun hplain _ _ => htext hplain, ?_, ?_⟩
  · have hempty : IsBlankText "" := nofun
    have hbare := hread false hempty hempty
    rwa [minus, if_neg Bool.false_ne_true, String.append_empty, String.append_empty, String.empty_append] at hbare
  · intro hplain before after hbefore hafter
    have hsigned := hread true hbefore hafter
    rwa [ungrouped_eq_self hplain] at hsigned
  · intro hplain before after hbefore hafter σ enter m v hv
    have hnumber : m.state.StandsFor (.number x) x := .number (Value.number?_number (hbegins'.isNaN_eq_false hx))
    exact ⟨negate_of_standsFor (standsFor_of_isText hv (htext hplain hbefore hafter)), negate_of_standsFor hnumber⟩

/-- **The numerals of a source stand for numbers.** What the lexer cuts out of a source as a numeral has one number:
it is the value of the literal, and that of the text without underscores. Without underscores it is the value of the
same text with blanks around it as well, and with a minus in front the text has the opposite value. So it makes no
difference whether a literal is negated or a string that holds the same text.

**Proof sketch.** A numeral begins with a digit or a point, so it has no sign to be taken off and is no named number,
and none of its characters is blank. What is left of both readers is the same. -/
theorem denotes_of_tokenize {source : String} {tokens : List Token} {t : Token} (h : tokenize source = .ok tokens)
    (ht : t ∈ tokens) (hkind : t.kind = .number) : ∃ x, Denotes t.lexeme x := by
  obtain ⟨found, q, rfl, hfound⟩ := Lexer.tokensFrom_begins _ _ _ h
  rcases List.mem_append.mp ht with ht | ht
  · obtain ⟨c, cs, hbegins⟩ := hfound t ht
    obtain ⟨hstart, hlexeme, x, hx⟩ := hbegins.exists_value hkind
    have htext : t.lexeme.toList = Lexer.numeralText (c :: cs) := by rw [hlexeme, String.toList_ofList]
    refine ⟨x, denotes_of_literal? ?_ ?_ hx⟩
    · rw [htext]
      exact Lexer.beginsNumeral_numeralText hstart
    · rw [htext]
      exact fun d hd => Lexer.isBlank_of_isNumeralPart (Lexer.isNumeralPart_of_mem _ d hd)
  · obtain rfl := List.mem_singleton.mp ht
    cases hkind

/-- The tokens of a sum of two numerals, one with an underscore and one that begins with its point. -/
def sumTokens : List Token :=
  [⟨.ident, ⟨1, 1⟩, "x"⟩, ⟨.assign, ⟨1, 2⟩, "="⟩, ⟨.number, ⟨1, 3⟩, "1_0"⟩, ⟨.plus, ⟨1, 6⟩, "+"⟩,
    ⟨.number, ⟨1, 7⟩, ".5e1"⟩, ⟨.eof, ⟨1, 11⟩, ""⟩]

/-- Both numerals of the sum stand for numbers. -/
theorem denotes_sum :
    tokenize "x=1_0+.5e1" = .ok sumTokens ∧ (∃ x, Denotes "1_0" x ∧ literal? "1_0" = some (Binary64.ofNat 10)) ∧
      ∃ x, Denotes ".5e1" x ∧ ofText? " -.5e1\n" = some (Binary64.ofNat 5).neg := by
  have htokens : tokenize "x=1_0+.5e1" = .ok sumTokens := by decide +kernel
  obtain ⟨x, hx⟩ := denotes_of_tokenize htokens (t := ⟨.number, ⟨1, 3⟩, "1_0"⟩) (by simp [sumTokens]) rfl
  obtain ⟨y, hy⟩ := denotes_of_tokenize htokens (t := ⟨.number, ⟨1, 7⟩, ".5e1"⟩) (by simp [sumTokens]) rfl
  exact ⟨htokens, ⟨x, hx, by decide +kernel⟩, y, hy, by decide +kernel⟩

end Numeral

end ScriptCore
