import Mathlib
import ScriptCore.Numeral.Reading

set_option relaxedAutoImplicit false
set_option autoImplicit false

/-!
# Texts that are numerals

A text stands for a number if it is a numeral, with blanks around it and one sign in front. A numeral is decimal
or hexadecimal, and there is a grammar for both. The reader takes a text apart from the front and knows nothing of
the grammar, but it accepts just the texts of the grammar, and besides these the hexadecimal ones in which a plus
stands behind the mark.

## Main definitions

* `ScriptCore.Numeral.IsNumeral` — the grammar of numerals.
* `ScriptCore.Numeral.Signed` — texts with blanks around them and a sign in front.
* `ScriptCore.Numeral.HasInnerPlus` — hexadecimal numerals with a plus behind the mark.

## Main results

* `ScriptCore.Numeral.isSome_decimal?_iff`, `ScriptCore.Numeral.isSome_hexadecimal?_iff` — the two readers.
* `ScriptCore.Numeral.isSome_ofText?_iff` — the texts that are accepted.
-/

namespace ScriptCore.Numeral

open Text

/-! ## The grammar -/

/-- The decimal digits. -/
def decimalDigits : List Char := ['0', '1', '2', '3', '4', '5', '6', '7', '8', '9']

/-- A hexadecimal digit with its value. -/
inductive IsHexDigit : Char → ℕ → Prop
  | lower {c : Char} {d : ℕ} (h : "0123456789abcdef".toList[d]? = some c) : IsHexDigit c d
  | upper {c : Char} {d : ℕ} (h : "0123456789ABCDEF".toList[d]? = some c) : IsHexDigit c d

/-- Hexadecimal digits with the number they stand for. -/
inductive HexNumber : List Char → ℕ → Prop
  | nil : HexNumber [] 0
  | concat {cs : List Char} {n d : ℕ} {c : Char} (hcs : HexNumber cs n) (hc : IsHexDigit c d) :
    HexNumber (cs ++ [c]) (16 * n + d)

/-- One hexadecimal digit at least, with a value that fits in 64 bits. -/
def IsHexWord (cs : List Char) : Prop := cs ≠ [] ∧ ∃ n < 2 ^ 64, HexNumber cs n

/-- Decimal digits, one at least. -/
def IsDigits (cs : List Char) : Prop := cs ≠ [] ∧ cs ⊆ decimalDigits

/-- No sign, or one. -/
inductive IsSign : List Char → Prop
  | none : IsSign []
  | plus : IsSign ['+']
  | minus : IsSign ['-']

/-- Decimal digits, one at least, with at most one point between, before or behind them. -/
inductive IsMantissa : List Char → Prop
  | whole {whole : List Char} (h : IsDigits whole) : IsMantissa whole
  | pointed {whole fraction : List Char} (hwhole : whole ⊆ decimalDigits) (hfraction : fraction ⊆ decimalDigits)
    (h : whole ≠ [] ∨ fraction ≠ []) : IsMantissa (whole ++ '.' :: fraction)

/-- Nothing, or the mark of an exponent with a sign or without, and digits. -/
inductive IsExponent : List Char → Prop
  | none : IsExponent []
  | some {mark : Char} {sign digits : List Char} (hmark : mark = 'e' ∨ mark = 'E') (hsign : IsSign sign)
    (hdigits : IsDigits digits) : IsExponent (mark :: (sign ++ digits))

/-- **A numeral** is hexadecimal behind its mark, or decimal with an exponent or without. -/
inductive IsNumeral : List Char → Prop
  | hexadecimal {mark : Char} {digits : List Char} (hmark : mark = 'x' ∨ mark = 'X') (hdigits : IsHexWord digits) :
    IsNumeral ('0' :: mark :: digits)
  | decimal {mantissa exponent : List Char} (hmantissa : IsMantissa mantissa) (hexponent : IsExponent exponent) :
    IsNumeral (mantissa ++ exponent)

/-- **A hexadecimal numeral with a plus behind its mark**, which is no numeral. -/
inductive HasInnerPlus : List Char → Prop
  | intro {mark : Char} {digits : List Char} (hmark : mark = 'x' ∨ mark = 'X') (hdigits : IsHexWord digits) :
    HasInnerPlus ('0' :: mark :: '+' :: digits)

/-- **A text of a kind with blanks around it**, and a sign in front or none. -/
inductive Signed (P : List Char → Prop) (cs : List Char) : Prop
  | intro {before sign body after : List Char} (hcs : cs = before ++ (sign ++ body) ++ after)
    (hbefore : ∀ c ∈ before, isBlank c = true) (hafter : ∀ c ∈ after, isBlank c = true) (hsign : IsSign sign)
    (hbody : P body)

/-! ## Digits -/

lemma isDecimal_iff {c : Char} : isDecimal c = true ↔ c ∈ decimalDigits := by
  constructor
  · intro h
    simp only [isDecimal, Bool.and_eq_true, decide_eq_true_eq, Char.le_def, UInt32.le_iff_toNat_le] at h
    obtain ⟨hlo, hhi⟩ := h
    have hc : c = Char.ofNat c.toNat := (Char.ofNat_toNat c).symm
    rw [hc]
    change 48 ≤ c.toNat at hlo
    change c.toNat ≤ 57 at hhi
    interval_cases c.toNat <;> decide
  · intro h
    fin_cases h <;> decide

lemma all_isDecimal_iff {cs : List Char} : cs.all isDecimal = true ↔ cs ⊆ decimalDigits := by
  rw [List.all_eq_true]
  exact forall₂_congr fun c _ => isDecimal_iff

lemma toNat_lt_of_isHexadecimal {c : Char} (h : isHexadecimal c = true) : c.toNat < 128 := by
  simp only [isHexadecimal, isDecimal, Bool.or_eq_true, Bool.and_eq_true, decide_eq_true_eq, Char.le_def,
    UInt32.le_iff_toNat_le] at h
  change (48 ≤ c.toNat ∧ c.toNat ≤ 57 ∨ 97 ≤ c.toNat ∧ c.toNat ≤ 102) ∨ 65 ≤ c.toNat ∧ c.toNat ≤ 70 at h
  omega

/-- The digits of the hexadecimal reader, with their values. -/
lemma isHexDigit_iff {c : Char} {d : ℕ} : IsHexDigit c d ↔ isHexadecimal c = true ∧ digitValue c = d := by
  constructor
  · have hlist : ∀ digits ∈ ["0123456789abcdef".toList, "0123456789ABCDEF".toList], ∀ i : Fin digits.length,
        isHexadecimal digits[i] = true ∧ digitValue digits[i] = i := by decide +kernel
    rintro (h | h) <;> obtain ⟨hd, rfl⟩ := List.getElem?_eq_some_iff.mp h
    · exact hlist _ (by simp) ⟨d, hd⟩
    · exact hlist _ (by simp) ⟨d, hd⟩
  · rintro ⟨hc, rfl⟩
    have hfound : ∀ n < 128, isHexadecimal (Char.ofNat n) = true →
        "0123456789abcdef".toList[digitValue (Char.ofNat n)]? = some (Char.ofNat n) ∨
          "0123456789ABCDEF".toList[digitValue (Char.ofNat n)]? = some (Char.ofNat n) := by decide +kernel
    have h := hfound c.toNat (toNat_lt_of_isHexadecimal hc)
    rw [Char.ofNat_toNat] at h
    exact (h hc).elim .lower .upper

/-- The number that hexadecimal digits stand for is the one that is read. -/
lemma hexNumber_iff {cs : List Char} {n : ℕ} :
    HexNumber cs n ↔ cs.all isHexadecimal = true ∧ ofDigits 16 cs = n := by
  have hconcat : ∀ cs c, ofDigits 16 (cs ++ [c]) = 16 * ofDigits 16 cs + digitValue c := fun cs c => by
    rw [ofDigits, ofDigits, List.foldl_append]
    rfl
  constructor
  · intro h
    induction h with
    | nil => exact ⟨rfl, rfl⟩
    | concat _ hc ih =>
      obtain ⟨hall, rfl⟩ := ih
      obtain ⟨hdigit, rfl⟩ := isHexDigit_iff.mp hc
      rw [List.all_append, hall, List.all_cons, hdigit, hconcat]
      exact ⟨rfl, rfl⟩
  · rintro ⟨hall, rfl⟩
    induction cs using List.reverseRecOn with
    | nil => exact .nil
    | append_singleton cs c ih =>
      rw [List.all_append, Bool.and_eq_true] at hall
      rw [hconcat]
      refine .concat (ih hall.1) (isHexDigit_iff.mpr ⟨?_, rfl⟩)
      simpa using hall.2

lemma isHexWord_iff {cs : List Char} : IsHexWord cs ↔
    cs ≠ [] ∧ cs.all isHexadecimal = true ∧ ofDigits 16 cs < 2 ^ 64 := by
  refine and_congr_right fun _ => ?_
  constructor
  · rintro ⟨n, hn, h⟩
    obtain ⟨hall, rfl⟩ := hexNumber_iff.mp h
    exact ⟨hall, hn⟩
  · rintro ⟨hall, hn⟩
    exact ⟨_, hn, hexNumber_iff.mpr ⟨hall, rfl⟩⟩

/-! ## The readers -/

/-- A sign is taken off, if there is one, and the rest is left. -/
lemma exists_splitSign (cs : List Char) : ∃ sign, IsSign sign ∧ cs = sign ++ (splitSign cs).2 := by
  unfold splitSign
  split
  · exact ⟨_, .minus, rfl⟩
  · exact ⟨_, .plus, rfl⟩
  · exact ⟨_, .none, rfl⟩

/-- What is behind a sign is left, if it does not begin with another one. -/
lemma splitSign_append {sign cs : List Char} (hsign : IsSign sign) (hplus : cs.head? ≠ some '+')
    (hminus : cs.head? ≠ some '-') : (splitSign (sign ++ cs)).2 = cs := by
  cases hsign with
  | none =>
    rw [List.nil_append]
    unfold splitSign
    split
    · exact absurd rfl hminus
    · exact absurd rfl hplus
    · rfl
  | plus => rfl
  | minus => rfl

/-- The hexadecimal reader takes digits with a plus in front or without. -/
lemma isSome_hexadecimal?_iff {cs : List Char} :
    (hexadecimal? cs).isSome = true ↔ IsHexWord cs ∨ ∃ digits, cs = '+' :: digits ∧ IsHexWord digits := by
  have hread : ∀ ds : List Char, (if ds ≠ [] ∧ ds.all isHexadecimal ∧ ofDigits 16 ds < 0x10000000000000000
      then some (ofDigits 16 ds) else none).isSome = true ↔ IsHexWord ds := fun ds => by
    rw [isHexWord_iff, Option.isSome_ite]
    exact Iff.rfl
  have hno : ∀ digits, ¬ IsHexWord ('+' :: digits) := fun digits h => by
    obtain ⟨-, hall, -⟩ := isHexWord_iff.mp h
    rw [List.all_cons] at hall
    exact absurd (Bool.and_elim_left hall) (by decide)
  obtain ⟨ds, hds, hrun⟩ : ∃ ds, (cs = '+' :: ds ∨ cs = ds ∧ ∀ r, cs ≠ '+' :: r) ∧
      ((hexadecimal? cs).isSome = true ↔ IsHexWord ds) := by
    by_cases hplus : ∃ r, cs = '+' :: r
    · obtain ⟨r, rfl⟩ := hplus
      exact ⟨r, .inl rfl, hread r⟩
    · have hplus : ∀ r, cs = '+' :: r → False := fun r heq => hplus ⟨r, heq⟩
      refine ⟨cs, .inr ⟨rfl, hplus⟩, ?_⟩
      simp only [hexadecimal?]
      exact hread cs
  rw [hrun]
  rcases hds with rfl | ⟨rfl, hplus⟩
  · refine ⟨fun h => .inr ⟨ds, rfl, h⟩, ?_⟩
    rintro (h | ⟨digits, heq, h⟩)
    · exact absurd h (hno ds)
    · exact (List.cons.inj heq).2 ▸ h
  · exact ⟨.inl, fun h => h.resolve_right fun ⟨digits, heq, _⟩ => hplus digits heq⟩

/-- The exponent of a decimal numeral is read as the grammar has it. -/
lemma isSome_exponent?_iff {cs : List Char} : (exponent? cs).isSome = true ↔ IsExponent cs := by
  constructor
  · intro h
    unfold exponent? at h
    split at h
    · exact .none
    · next mark rest =>
      split at h
      · next hmark =>
        obtain ⟨sign, hsign, hrest⟩ := exists_splitSign rest
        dsimp only at h
        split at h
        · next hdigits =>
          rw [hrest]
          exact .some hmark hsign ⟨hdigits.1, all_isDecimal_iff.mp hdigits.2⟩
        · cases h
      · cases h
  · rintro (_ | @⟨mark, sign, digits, hmark, hsign, hdigits⟩)
    · rfl
    · have hhead : ∀ c, c ∉ decimalDigits → digits.head? ≠ some c := fun c hc heq =>
        hc (hdigits.2 (List.mem_of_mem_head? heq))
      have hsplit := splitSign_append hsign (hhead '+' (by decide)) (hhead '-' (by decide))
      rw [exponent?, if_pos hmark]
      dsimp only
      rw [hsplit, if_pos ⟨hdigits.1, all_isDecimal_iff.mpr hdigits.2⟩]
      rfl

/-- What is in front of a character that is no decimal digit, if there is one. -/
lemma span_isDecimal {digits rest : List Char} (hdigits : digits ⊆ decimalDigits)
    (hrest : ∀ c, rest.head? = some c → c ∉ decimalDigits) : (digits ++ rest).span isDecimal = (digits, rest) := by
  rw [List.span_eq_takeWhile_dropWhile, List.takeWhile_append_of_pos fun c hc => isDecimal_iff.mpr (hdigits hc),
    List.dropWhile_append_of_pos fun c hc => isDecimal_iff.mpr (hdigits hc)]
  cases rest with
  | nil => simp
  | cons c rest =>
    have hc : ¬ isDecimal c = true := fun h => hrest c rfl (isDecimal_iff.mp h)
    rw [List.takeWhile_cons_of_neg hc, List.dropWhile_cons_of_neg hc, List.append_nil]

/-- The decimal digits in front of a text, and what is behind them. -/
lemma exists_span_isDecimal (cs : List Char) : ∃ digits rest, cs = digits ++ rest ∧ digits ⊆ decimalDigits ∧
    ∀ c, rest.head? = some c → c ∉ decimalDigits := by
  refine ⟨cs.takeWhile isDecimal, cs.dropWhile isDecimal, List.takeWhile_append_dropWhile.symm,
    all_isDecimal_iff.mp List.all_takeWhile, fun c hc hdigit => ?_⟩
  have hnot := List.head?_dropWhile_not isDecimal cs
  rw [hc] at hnot
  exact Bool.false_ne_true (hnot.symm.trans (isDecimal_iff.mpr hdigit))

/-- The digits behind a point, if there is one in front, and what is left. -/
def afterPoint : List Char → List Char × List Char
  | '.' :: rest => rest.span isDecimal
  | rest => ([], rest)

lemma afterPoint_cons (cs : List Char) : afterPoint ('.' :: cs) = cs.span isDecimal := rfl

lemma afterPoint_of_head? {cs : List Char} (h : cs.head? ≠ some '.') : afterPoint cs = ([], cs) := by
  unfold afterPoint
  split
  · exact absurd rfl h
  · rfl

/-- A decimal text is read when there is a digit in front of the point or behind it, and then an exponent. -/
lemma isSome_decimal?_of_span {cs whole rest fraction rest' : List Char} (hwhole : cs.span isDecimal = (whole, rest))
    (hfraction : afterPoint rest = (fraction, rest')) :
    (decimal? cs).isSome = true ↔ (whole ≠ [] ∨ fraction ≠ []) ∧ IsExponent rest' := by
  have hrun : decimal? cs = if (cs.span isDecimal).1 = [] ∧ (afterPoint (cs.span isDecimal).2).1 = [] then none
      else (exponent? (afterPoint (cs.span isDecimal).2).2).map fun e =>
        ofDecimal ((cs.span isDecimal).1 ++ (afterPoint (cs.span isDecimal).2).1)
          (e - (afterPoint (cs.span isDecimal).2).1.length) := rfl
  rw [hrun, hwhole]
  dsimp only
  rw [hfraction, ← isSome_exponent?_iff, ← not_and_or]
  dsimp only
  split
  · next hnone => exact iff_of_false Bool.false_ne_true fun h => h.1 hnone
  · next hsome =>
    rw [Option.isSome_map]
    exact (and_iff_right hsome).symm

/-- **The decimal reader** takes the decimal numerals of the grammar.

**Proof sketch.** The digits in front are followed by a point or not; with a point, there are the digits behind it.
What is left then begins with no digit, so it can only be the exponent. -/
theorem isSome_decimal?_iff {cs : List Char} : (decimal? cs).isSome = true ↔
    ∃ mantissa exponent, cs = mantissa ++ exponent ∧ IsMantissa mantissa ∧ IsExponent exponent := by
  have hexponent : ∀ {cs}, IsExponent cs → cs.head? ≠ some '.' ∧ ∀ c, cs.head? = some c → c ∉ decimalDigits := by
    rintro _ (_ | ⟨rfl | rfl, -, -⟩)
    · exact ⟨nofun, nofun⟩
    all_goals
      refine ⟨fun h => absurd (Option.some.inj h) (by decide), ?_⟩
      rintro c ⟨⟩
      decide
  constructor
  · intro h
    obtain ⟨whole, rest, rfl, hwhole, hrest⟩ := exists_span_isDecimal cs
    have hspan := span_isDecimal hwhole hrest
    by_cases hpoint : rest.head? = some '.'
    · obtain ⟨rest, rfl⟩ : ∃ rest', rest = '.' :: rest' := by
        cases rest with
        | nil => cases hpoint
        | cons c rest => exact ⟨rest, by rw [Option.some.inj hpoint]⟩
      obtain ⟨fraction, rest, rfl, hfraction, hrest⟩ := exists_span_isDecimal rest
      have hafter := (afterPoint_cons _).trans (span_isDecimal hfraction hrest)
      obtain ⟨hdigit, hexp⟩ := (isSome_decimal?_of_span hspan hafter).mp h
      exact ⟨whole ++ '.' :: fraction, rest, by simp, .pointed hwhole hfraction hdigit, hexp⟩
    · obtain ⟨hdigit, hexp⟩ := (isSome_decimal?_of_span hspan (afterPoint_of_head? hpoint)).mp h
      exact ⟨whole, rest, rfl, .whole ⟨hdigit.resolve_right (absurd rfl), hwhole⟩, hexp⟩
  · rintro ⟨_, exponent, rfl, hdigits | ⟨hwhole, hfraction, hdigit⟩, hexp⟩
    · obtain ⟨hpoint, hdigit⟩ := hexponent hexp
      exact (isSome_decimal?_of_span (span_isDecimal hdigits.2 hdigit) (afterPoint_of_head? hpoint)).mpr
        ⟨.inl hdigits.1, hexp⟩
    · rw [List.append_assoc, List.cons_append]
      have hafter := (afterPoint_cons _).trans (span_isDecimal hfraction (hexponent hexp).2)
      refine (isSome_decimal?_of_span (span_isDecimal hwhole ?_) hafter).mpr ⟨hdigit, hexp⟩
      rintro c ⟨⟩
      decide

lemma stripHexMark?_eq_some_iff {cs digits : List Char} :
    stripHexMark? cs = some digits ↔ ∃ mark, (mark = 'x' ∨ mark = 'X') ∧ cs = '0' :: mark :: digits := by
  constructor
  · intro h
    unfold stripHexMark? at h
    split at h
    · exact ⟨'x', .inl rfl, by rw [Option.some.inj h]⟩
    · exact ⟨'X', .inr rfl, by rw [Option.some.inj h]⟩
    · cases h
  · rintro ⟨mark, rfl | rfl, rfl⟩ <;> rfl

/-! ## Signs and blanks -/

/-- A text that is not changed when a sign is split off and blanks are trimmed. -/
structure Bare (cs : List Char) : Prop where
  ne_nil : cs ≠ []
  notBlank : ∀ c ∈ cs, isBlank c = false
  plus : cs.head? ≠ some '+'
  minus : cs.head? ≠ some '-'

/-- The characters of decimal numerals. -/
def decimalChars : List Char := decimalDigits ++ ['.', 'e', 'E', '+', '-']

lemma IsSign.subset {sign : List Char} (h : IsSign sign) : sign ⊆ ['+', '-'] := by
  cases h <;> decide

lemma IsMantissa.subset {cs : List Char} (h : IsMantissa cs) : cs ⊆ decimalDigits ++ ['.'] := by
  have hleft : decimalDigits ⊆ decimalDigits ++ ['.'] := List.subset_append_left ..
  cases h with
  | whole h => exact List.Subset.trans h.2 hleft
  | pointed hwhole hfraction h =>
    exact List.append_subset.mpr ⟨List.Subset.trans hwhole hleft,
      List.cons_subset.mpr ⟨by decide, List.Subset.trans hfraction hleft⟩⟩

lemma IsExponent.subset {cs : List Char} (h : IsExponent cs) : cs ⊆ decimalChars := by
  cases h with
  | none => exact List.nil_subset _
  | some hmark hsign hdigits =>
    refine List.cons_subset.mpr ⟨?_, List.append_subset.mpr ⟨List.Subset.trans hsign.subset (by decide), ?_⟩⟩
    · rcases hmark with rfl | rfl <;> decide
    · exact List.Subset.trans hdigits.2 (List.subset_append_left ..)

lemma isDecimalNumeral_subset {mantissa exponent : List Char} (hmantissa : IsMantissa mantissa)
    (hexponent : IsExponent exponent) : mantissa ++ exponent ⊆ decimalChars :=
  List.append_subset.mpr ⟨List.Subset.trans hmantissa.subset (by decide), hexponent.subset⟩

/-- Visible ASCII characters are not blank. -/
lemma isBlank_of_visible {c : Char} (h : 33 ≤ c.toNat ∧ c.toNat ≤ 126) : isBlank c = false := by
  rw [← Bool.not_eq_true]
  simp only [isBlank, Bool.or_eq_true, Bool.and_eq_true, decide_eq_true_eq, beq_iff_eq]
  omega

lemma IsHexWord.notBlank {cs : List Char} (h : IsHexWord cs) : ∀ c ∈ cs, isBlank c = false := by
  have hascii : ∀ n < 128, isHexadecimal (Char.ofNat n) = true → 33 ≤ n ∧ n ≤ 126 := by decide +kernel
  intro c hc
  have hdigit := List.all_eq_true.mp (isHexWord_iff.mp h).2.1 c hc
  have hvisible := hascii c.toNat (toNat_lt_of_isHexadecimal hdigit)
  rw [Char.ofNat_toNat] at hvisible
  exact isBlank_of_visible (hvisible hdigit)

lemma IsNumeral.bare {cs : List Char} (h : IsNumeral cs) : Bare cs := by
  cases h with
  | hexadecimal hmark hdigits =>
    refine ⟨List.cons_ne_nil _ _, ?_, fun h => absurd (Option.some.inj h) (by decide),
      fun h => absurd (Option.some.inj h) (by decide)⟩
    rw [List.forall_mem_cons, List.forall_mem_cons]
    exact ⟨by decide, by rcases hmark with rfl | rfl <;> decide, hdigits.notBlank⟩
  | @decimal mantissa exponent hmantissa hexponent =>
    have hvisible : ∀ c ∈ decimalChars, 33 ≤ c.toNat ∧ c.toNat ≤ 126 := by simp [decimalChars, decimalDigits]
    -- the first character is one of the mantissa
    obtain ⟨c, cs, rfl⟩ : ∃ c cs, mantissa = c :: cs := by
      refine List.exists_cons_of_ne_nil ?_
      rcases hmantissa with h | ⟨-, -, -⟩
      · exact h.1
      · exact List.append_ne_nil_of_right_ne_nil _ (List.cons_ne_nil _ _)
    have hc := hmantissa.subset (List.mem_cons_self)
    refine ⟨List.cons_ne_nil _ _,
      fun c hc => isBlank_of_visible (hvisible c (isDecimalNumeral_subset hmantissa hexponent hc)), ?_, ?_⟩ <;>
      · intro h
        rw [List.cons_append, List.head?_cons, Option.some.injEq] at h
        subst h
        revert hc
        decide

lemma HasInnerPlus.bare {cs : List Char} (h : HasInnerPlus cs) : Bare cs := by
  cases h with
  | intro hmark hdigits =>
    refine ⟨List.cons_ne_nil _ _, ?_, fun h => absurd (Option.some.inj h) (by decide),
      fun h => absurd (Option.some.inj h) (by decide)⟩
    rw [List.forall_mem_cons, List.forall_mem_cons, List.forall_mem_cons]
    exact ⟨by decide, by rcases hmark with rfl | rfl <;> decide, by decide, hdigits.notBlank⟩

/-- What is without blanks is found between them. -/
lemma trim_append {before cs after : List Char} (hbefore : ∀ c ∈ before, isBlank c = true)
    (hafter : ∀ c ∈ after, isBlank c = true) (hne : cs ≠ []) (hcs : ∀ c ∈ cs, isBlank c = false) :
    trim (before ++ cs ++ after) = cs := by
  have hdrop : ∀ {ds rest : List Char}, ds ≠ [] → (∀ c ∈ ds, isBlank c = false) →
      (ds ++ rest).dropWhile isBlank = ds ++ rest := by
    intro ds rest hds hblank
    obtain ⟨c, ds, rfl⟩ := List.exists_cons_of_ne_nil hds
    exact List.dropWhile_cons_of_neg (by rw [hblank c List.mem_cons_self]; exact Bool.false_ne_true)
  have hreverse := @hdrop _ [] (List.reverse_ne_nil_iff.mpr hne) fun c hc => hcs c (List.mem_reverse.mp hc)
  rw [List.append_nil] at hreverse
  rw [trim, List.append_assoc, List.dropWhile_append_of_pos hbefore, hdrop hne hcs, dropTrailing, List.reverse_append,
    List.dropWhile_append_of_pos fun c hc => hafter c (List.mem_reverse.mp hc), hreverse, List.reverse_reverse]

/-- What is trimmed off a text is blank. -/
lemma exists_trim (cs : List Char) : ∃ before after, cs = before ++ trim cs ++ after ∧
    (∀ c ∈ before, isBlank c = true) ∧ ∀ c ∈ after, isBlank c = true := by
  set rest := cs.dropWhile isBlank with hrest
  refine ⟨cs.takeWhile isBlank, (rest.reverse.takeWhile isBlank).reverse, ?_,
    fun c hc => List.mem_takeWhile_imp hc, fun c hc => List.mem_takeWhile_imp (List.mem_reverse.mp hc)⟩
  have hback : trim cs ++ (rest.reverse.takeWhile isBlank).reverse = rest := by
    rw [trim, dropTrailing, ← List.reverse_append, List.takeWhile_append_dropWhile, List.reverse_reverse]
  rw [List.append_assoc, hback, hrest, List.takeWhile_append_dropWhile]

/-- **A text is trimmed and its sign split off** to see what it is between them. -/
lemma signed_iff {P : List Char → Prop} (hP : ∀ body, P body → Bare body) {cs : List Char} :
    Signed P cs ↔ P (splitSign (trim cs)).2 := by
  constructor
  · rintro ⟨rfl, hbefore, hafter, hsign, hbody⟩
    obtain ⟨hne, hblank, hplus, hminus⟩ := hP _ hbody
    rw [trim_append hbefore hafter (List.append_ne_nil_of_right_ne_nil _ hne), splitSign_append hsign hplus hminus]
    · exact hbody
    · intro c hc
      rcases List.mem_append.mp hc with hc | hc
      · have hvisible : ∀ c ∈ ['+', '-'], 33 ≤ c.toNat ∧ c.toNat ≤ 126 := by simp
        exact isBlank_of_visible (hvisible c (hsign.subset hc))
      · exact hblank c hc
  · intro h
    obtain ⟨before, after, hcs, hbefore, hafter⟩ := exists_trim cs
    obtain ⟨sign, hsign, hbody⟩ := exists_splitSign (trim cs)
    exact ⟨by rw [← hbody]; exact hcs, hbefore, hafter, hsign, h⟩

/-! ## Texts -/

/-- What is behind the mark of a hexadecimal numeral, or of one with a plus there. -/
lemma isNumeral_mark_iff {mark : Char} {digits : List Char} (hmark : mark = 'x' ∨ mark = 'X') :
    IsNumeral ('0' :: mark :: digits) ↔ IsHexWord digits := by
  constructor
  · intro h
    generalize hcs : '0' :: mark :: digits = cs at h
    cases h with
    | hexadecimal _ hdigits => exact (List.cons.inj (List.cons.inj hcs).2).2 ▸ hdigits
    | decimal hmantissa hexponent =>
      -- the mark is no character of a decimal numeral
      have hmem : mark ∈ decimalChars := isDecimalNumeral_subset hmantissa hexponent (hcs ▸ by simp)
      rcases hmark with rfl | rfl <;> exact absurd hmem (by decide)
  · exact .hexadecimal hmark

/-- A plus behind the mark of a hexadecimal numeral makes it none. -/
lemma HasInnerPlus.not_isNumeral {cs : List Char} (h : HasInnerPlus cs) : ¬ IsNumeral cs := by
  obtain ⟨hmark, -⟩ := h
  rw [isNumeral_mark_iff hmark, isHexWord_iff]
  rintro ⟨-, hall, -⟩
  exact absurd (List.all_eq_true.mp hall '+' List.mem_cons_self) (by decide)

/-- What is left of a text is read if it is a numeral, or one with a plus behind its mark. -/
lemma isSome_body_iff {body : List Char} : (match stripHexMark? body with
      | some digits => (hexadecimal? digits).isSome
      | none => (decimal? body).isSome) = true ↔ IsNumeral body ∨ HasInnerPlus body := by
  cases hstrip : stripHexMark? body with
  | some digits =>
    obtain ⟨mark, hmark, rfl⟩ := stripHexMark?_eq_some_iff.mp hstrip
    dsimp only
    rw [isSome_hexadecimal?_iff, isNumeral_mark_iff hmark]
    refine or_congr_right ⟨?_, ?_⟩
    · rintro ⟨digits, rfl, h⟩
      exact .intro hmark h
    · rintro ⟨-, h⟩
      exact ⟨_, rfl, h⟩
  | none =>
    have hno : ∀ {mark : Char} {digits : List Char}, body = '0' :: mark :: digits → ¬ (mark = 'x' ∨ mark = 'X') := by
      intro mark digits heq hmark
      rw [stripHexMark?_eq_some_iff.mpr ⟨mark, hmark, heq⟩] at hstrip
      cases hstrip
    dsimp only
    rw [isSome_decimal?_iff]
    constructor
    · rintro ⟨mantissa, exponent, rfl, hmantissa, hexponent⟩
      exact .inl (.decimal hmantissa hexponent)
    · rintro ((⟨hmark, -⟩ | ⟨hmantissa, hexponent⟩) | ⟨hmark, -⟩)
      · exact absurd hmark (hno rfl)
      · exact ⟨_, _, rfl, hmantissa, hexponent⟩
      · exact absurd hmark (hno rfl)

/-- **The texts that stand for numbers.** A text is accepted where a number is wanted if and only if it is, without
the blanks around it and a sign in front, a numeral of the grammar or a hexadecimal numeral with a plus behind the
mark; and no text is both. So just the texts with such a plus are accepted without being numerals.

**Proof sketch.** The blanks and the sign are found in one way only, since numerals have no blanks and begin with no
sign. What is left has the mark of hexadecimal numerals or not. Behind the mark the digits are read with a plus in
front or without, and without a mark the decimal reader takes the decimal numerals only. -/
theorem isSome_ofText?_iff (text : String) :
    ((ofText? text).isSome = true ↔ Signed IsNumeral text.toList ∨ Signed HasInnerPlus text.toList) ∧
      ¬ (Signed IsNumeral text.toList ∧ Signed HasInnerPlus text.toList) := by
  rw [signed_iff fun _ => IsNumeral.bare, signed_iff fun _ => HasInnerPlus.bare]
  refine ⟨?_, fun ⟨hnumeral, hplus⟩ => hplus.not_isNumeral hnumeral⟩
  rw [← isSome_body_iff, ofText?]
  dsimp only
  cases stripHexMark? (splitSign (trim text.toList)).2 with
  | some digits => rw [Option.isSome_map]
  | none => rw [Option.isSome_map]

/-- The text `0x+ff` is accepted, though it has a sign behind the mark. -/
theorem ofText?_accepts_innerPlus :
    (ofText? "0x+ff").isSome = true ∧ ¬ Signed IsNumeral "0x+ff".toList := by
  have hplus : HasInnerPlus ['0', 'x', '+', 'f', 'f'] :=
    .intro (.inl rfl) (isHexWord_iff.mpr ⟨List.cons_ne_nil _ _, by decide, by decide⟩)
  refine ⟨by decide +kernel, fun h => hplus.not_isNumeral ?_⟩
  have hbody := (signed_iff fun _ => IsNumeral.bare).mp h
  rwa [show (splitSign (trim "0x+ff".toList)).2 = ['0', 'x', '+', 'f', 'f'] by decide +kernel] at hbody

end ScriptCore.Numeral
