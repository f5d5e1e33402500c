import ScriptCore.Proofs.Scanning

set_option relaxedAutoImplicit false
set_option autoImplicit false

/-!
# Tokens in front of blanks

A blank ends every token it stands behind, because no name, numeral or symbol goes on with one. Hence a token
is read back from its own spelling, whatever text follows the blank. Strings need no blank behind them: they
are read up to their closing quote or bracket. Blanks and complete comments are passed over.

## Main definitions

* `ScriptCore.Lexer.Parted` — texts in front of which every token ends.
* `ScriptCore.Lexer.quotedLiteral`, `ScriptCore.Lexer.longLiteral` — strings in quotes and in long brackets.
* `ScriptCore.Lexer.isNumeralPart` — the characters of numerals.
* `ScriptCore.Lexer.ReadAs` — a spelling that is read as one token.
* `ScriptCore.Lexer.Gap`, `ScriptCore.Lexer.Filler` — what stands between tokens.

## Main results

* `ScriptCore.Lexer.readAs_word`, `ScriptCore.Lexer.readAs_numeral`, `ScriptCore.Lexer.readAs_symbol` — words,
  numerals and symbols are read back.
* `ScriptCore.Lexer.tokensFrom_quotedLiteral`, `ScriptCore.Lexer.tokensFrom_longLiteral` — strings of any
  text.
* `ScriptCore.Lexer.tokensFrom_gap` — blanks and comments are passed over.
-/

namespace ScriptCore.Lexer

variable {p : Position} {c : Char} {cs rest : List Char}

/-! ## Characters behind a token -/

/-- A text in front of which every token ends: it is empty or begins with a blank. -/
def Parted (rest : List Char) : Prop := ∀ c ∈ rest.head?, isBlank c

lemma parted_nil : Parted [] := nofun

lemma parted_cons : Parted (c :: cs) ↔ isBlank c := by
  simp [Parted]

/-- What is true of no blank is not true of the first character of a parted text. -/
lemma Parted.takeWhile_append {f : Char → Bool} (hf : ∀ c, isBlank c → f c = false) (h : Parted rest)
    (htext : ∀ c ∈ cs, f c) : (cs ++ rest).takeWhile f = cs := by
  rw [List.takeWhile_append_of_pos htext]
  cases rest with
  | nil => rw [List.takeWhile_nil, List.append_nil]
  | cons b rest => rw [List.takeWhile_cons_of_neg (by simp [hf b (parted_cons.1 h)]), List.append_nil]

lemma eq_of_isBlank (h : isBlank c) : c = ' ' ∨ c = '\t' ∨ c = '\r' ∨ c = '\n' := by
  simpa [isBlank, or_assoc] using h

lemma isNamePart_of_isBlank (c : Char) (h : isBlank c) : isNamePart c = false := by
  rcases eq_of_isBlank h with rfl | rfl | rfl | rfl <;> decide

lemma isHexPart_of_isBlank (c : Char) (h : isBlank c) : isHexPart c = false := by
  rcases eq_of_isBlank h with rfl | rfl | rfl | rfl <;> decide

lemma isDecimalPart_of_isBlank (c : Char) (h : isBlank c) : isDecimalPart c = false := by
  rcases eq_of_isBlank h with rfl | rfl | rfl | rfl <;> decide

lemma isDecimal_of_isBlank (c : Char) (h : isBlank c) : Numeral.isDecimal c = false := by
  rcases eq_of_isBlank h with rfl | rfl | rfl | rfl <;> decide

lemma not_isBlank_of_isNameStart (h : isNameStart c) : isBlank c = false := by
  by_contra hblank
  rcases eq_of_isBlank (Bool.eq_true_of_not_eq_false hblank) with rfl | rfl | rfl | rfl <;> cases h

/-! ## Numerals -/

/-- The exponent of a text that does not begin with a sign. -/
lemma exponentText_of_no_sign (h : ∀ c ∈ cs.head?, c ≠ '+' ∧ c ≠ '-') :
    exponentText cs = cs.takeWhile Numeral.isDecimal := by
  cases cs with
  | nil => rfl
  | cons c cs =>
    obtain ⟨hplus, hminus⟩ := h c rfl
    simp [exponentText, hplus, hminus]

lemma exponentText_append (h : Parted rest) (cs : List Char) :
    exponentText (exponentText cs ++ rest) = exponentText cs := by
  have hdigits (ds : List Char) :
      (ds.takeWhile Numeral.isDecimal ++ rest).takeWhile Numeral.isDecimal =
        ds.takeWhile Numeral.isDecimal :=
    h.takeWhile_append isDecimal_of_isBlank fun _ => List.mem_takeWhile_imp
  have hno_sign (ds : List Char) :
      exponentText (ds.takeWhile Numeral.isDecimal ++ rest) = ds.takeWhile Numeral.isDecimal := by
    rw [exponentText_of_no_sign, hdigits]
    intro c hc
    rcases hds : ds.takeWhile Numeral.isDecimal with _ | ⟨d, ds'⟩
    · rw [hds, List.nil_append] at hc
      rcases eq_of_isBlank (h c hc) with rfl | rfl | rfl | rfl <;> decide
    · rw [hds, List.cons_append, List.head?_cons, Option.mem_some_iff] at hc
      subst hc
      have hdigit : Numeral.isDecimal d := List.mem_takeWhile_imp (hds ▸ List.mem_cons_self)
      constructor <;> (rintro rfl; cases hdigit)
  cases cs with
  | nil => exact hno_sign []
  | cons c cs =>
    by_cases hsign : c = '+' ∨ c = '-'
    · simp [exponentText, hsign, hdigits]
    · have hc : exponentText (c :: cs) = (c :: cs).takeWhile Numeral.isDecimal := by
        simp [exponentText, hsign]
      rw [hc, hno_sign]

/-- The exponent at the head of a text, with its letter. -/
def exponentPart : List Char → List Char
  | [] => []
  | c :: cs => if c = 'e' ∨ c = 'E' then c :: exponentText cs else []

lemma exponentPart_append (h : Parted rest) (cs : List Char) :
    exponentPart (exponentPart cs ++ rest) = exponentPart cs := by
  have hrest : exponentPart rest = [] := by
    cases rest with
    | nil => rfl
    | cons b rest =>
      rcases eq_of_isBlank (parted_cons.1 h) with rfl | rfl | rfl | rfl <;> simp [exponentPart]
  cases cs with
  | nil => exact hrest
  | cons c cs =>
    by_cases hc : c = 'e' ∨ c = 'E'
    · simp [exponentPart, hc, exponentText_append h]
    · rw [show exponentPart (c :: cs) = [] by simp [exponentPart, hc], List.nil_append, hrest]

lemma decimalText_eq (cs : List Char) :
    decimalText cs = cs.takeWhile isDecimalPart ++ exponentPart (cs.dropWhile isDecimalPart) := by
  rw [decimalText]
  cases cs.dropWhile isDecimalPart with
  | nil => simp [exponentPart]
  | cons c tail => by_cases hc : c = 'e' ∨ c = 'E' <;> simp [exponentPart, hc]

lemma decimalText_append (h : Parted rest) (cs : List Char) :
    decimalText (decimalText cs ++ rest) = decimalText cs := by
  set body := cs.takeWhile isDecimalPart with hbody
  set tail := exponentPart (cs.dropWhile isDecimalPart) with htail
  have hparts : ∀ c ∈ body, isDecimalPart c := fun _ => List.mem_takeWhile_imp
  -- neither an exponent nor a blank goes on with the characters in front of it
  have hend : ∀ c ∈ (tail ++ rest).head?, isDecimalPart c = false := by
    intro c hc
    rcases hdrop : cs.dropWhile isDecimalPart with _ | ⟨d, ds⟩
    · rw [htail, hdrop] at hc
      exact isDecimalPart_of_isBlank c (h c hc)
    · by_cases hd : d = 'e' ∨ d = 'E'
      · obtain rfl : d = c := by simpa [htail, hdrop, exponentPart, hd] using hc
        rcases hd with rfl | rfl <;> decide
      · exact isDecimalPart_of_isBlank c (h c (by simpa [htail, hdrop, exponentPart, hd] using hc))
  have hstop : (tail ++ rest).takeWhile isDecimalPart = [] ∧
      (tail ++ rest).dropWhile isDecimalPart = tail ++ rest := by
    cases htext : tail ++ rest with
    | nil => exact ⟨rfl, rfl⟩
    | cons c text => simp [hend c (by rw [htext]; rfl)]
  rw [decimalText_eq cs, List.append_assoc, decimalText_eq, List.takeWhile_append_of_pos hparts,
    List.dropWhile_append_of_pos hparts, hstop.1, hstop.2, List.append_nil, htail, exponentPart_append h]

/-- A hexadecimal numeral begins with this mark. -/
def HexMarked (cs : List Char) : Prop := ∃ d ds, (d = 'x' ∨ d = 'X') ∧ cs = '0' :: d :: ds

lemma numeralText_of_not_hexMarked (h : ¬ HexMarked cs) : numeralText cs = decimalText cs := by
  unfold numeralText
  split
  · exact absurd ⟨_, _, .inl rfl, rfl⟩ h
  · exact absurd ⟨_, _, .inr rfl, rfl⟩ h
  · rfl

lemma exponentText_isPrefix (cs : List Char) : exponentText cs <+: cs := by
  cases cs with
  | nil => exact List.prefix_rfl
  | cons c cs =>
    rw [exponentText]
    split
    · exact List.prefix_cons_inj c |>.2 (List.takeWhile_prefix _)
    · exact List.takeWhile_prefix _

lemma exponentPart_isPrefix (cs : List Char) : exponentPart cs <+: cs := by
  cases cs with
  | nil => exact List.prefix_rfl
  | cons c cs =>
    rw [exponentPart]
    split
    · exact List.prefix_cons_inj c |>.2 (exponentText_isPrefix cs)
    · exact List.nil_prefix

lemma decimalText_isPrefix (cs : List Char) : decimalText cs <+: cs := by
  rw [decimalText_eq]
  have hparts := (List.prefix_append_right_inj (cs.takeWhile isDecimalPart)).2
    (exponentPart_isPrefix (cs.dropWhile isDecimalPart))
  rwa [List.takeWhile_append_dropWhile] at hparts

/-- The characters of numerals: those of digits and groups, the point, the mark and signs. -/
def isNumeralPart (c : Char) : Bool := isHexPart c || isDecimalPart c || c ∈ ['x', 'X', '+', '-']

lemma isNumeralPart_of_mem_exponentText (cs : List Char) : ∀ d ∈ exponentText cs, isNumeralPart d = true := by
  have hdigits (ds : List Char) : ∀ d ∈ ds.takeWhile Numeral.isDecimal, isNumeralPart d = true := by
    intro d hd
    have hdigit := List.mem_takeWhile_imp hd
    simp [isNumeralPart, isDecimalPart, hdigit]
  cases cs with
  | nil => exact nofun
  | cons c cs =>
    rw [exponentText]
    split_ifs with hsign
    · refine List.forall_mem_cons.2 ⟨?_, hdigits cs⟩
      rcases hsign with rfl | rfl <;> decide
    · exact hdigits (c :: cs)

/-- A numeral, well formed or not, is made of these characters. -/
lemma isNumeralPart_of_mem (cs : List Char) : ∀ d ∈ numeralText cs, isNumeralPart d = true := by
  by_cases hmark : HexMarked cs
  · obtain ⟨d, ds, hd, rfl⟩ := hmark
    have hdigits : ∀ d ∈ ds.takeWhile isHexPart, isNumeralPart d = true := by
      intro d hd
      have hdigit := List.mem_takeWhile_imp hd
      simp [isNumeralPart, hdigit]
    rcases hd with rfl | rfl
    · exact List.forall_mem_cons.2 ⟨by decide, List.forall_mem_cons.2 ⟨by decide, hdigits⟩⟩
    · exact List.forall_mem_cons.2 ⟨by decide, List.forall_mem_cons.2 ⟨by decide, hdigits⟩⟩
  · rw [numeralText_of_not_hexMarked hmark, decimalText_eq]
    intro d hd
    rcases List.mem_append.1 hd with hd | hd
    · have hpart := List.mem_takeWhile_imp hd
      simp [isNumeralPart, hpart]
    · rcases hdrop : cs.dropWhile isDecimalPart with _ | ⟨e, rest⟩
      · rw [hdrop] at hd
        cases hd
      · rw [hdrop, exponentPart] at hd
        split_ifs at hd with hletter
        · rcases List.mem_cons.1 hd with rfl | hd
          · rcases hletter with rfl | rfl <;> decide
          · exact isNumeralPart_of_mem_exponentText rest d hd
        · cases hd

/-- **A numeral is read back** in front of a blank. -/
lemma numeralText_append (h : Parted rest) (cs : List Char) :
    numeralText (numeralText cs ++ rest) = numeralText cs := by
  have hhex (ds : List Char) :
      (ds.takeWhile isHexPart ++ rest).takeWhile isHexPart = ds.takeWhile isHexPart :=
    h.takeWhile_append isHexPart_of_isBlank fun _ => List.mem_takeWhile_imp
  by_cases hmark : HexMarked cs
  · obtain ⟨d, ds, rfl | rfl, rfl⟩ := hmark <;> simp [numeralText, hhex]
  · rw [numeralText_of_not_hexMarked hmark, numeralText_of_not_hexMarked, decimalText_append h]
    -- the mark would stand in the text, or a letter of it would be a blank
    rintro ⟨d, ds, hd, heq⟩
    rcases htext : decimalText cs with _ | ⟨c, _ | ⟨d', ds'⟩⟩
    · rw [htext, List.nil_append] at heq
      subst heq
      cases parted_cons.1 h
    · rw [htext] at heq
      obtain ⟨-, rfl⟩ := List.cons.inj heq
      have hblank := parted_cons.1 h
      rcases hd with rfl | rfl <;> cases hblank
    · rw [htext, List.cons_append, List.cons_append, List.cons.injEq, List.cons.injEq] at heq
      obtain ⟨rfl, rfl, -⟩ := heq
      obtain ⟨after, rfl⟩ := htext ▸ decimalText_isPrefix cs
      exact hmark ⟨d', ds' ++ after, hd, rfl⟩

/-- A numeral keeps its first character, and what shows that it is one. -/
lemma numeralText_cons (h : startsNumeral c cs) :
    ∃ ds, numeralText (c :: cs) = c :: ds ∧ ∀ rest, startsNumeral c (ds ++ rest) := by
  by_cases hmark : HexMarked (c :: cs)
  · obtain ⟨d, ds, hd, heq⟩ := hmark
    obtain ⟨rfl, rfl⟩ := List.cons.inj heq
    refine ⟨d :: ds.takeWhile isHexPart, ?_, fun _ => rfl⟩
    rcases hd with rfl | rfl <;> rfl
  · rw [numeralText_of_not_hexMarked hmark, decimalText_eq]
    rw [startsNumeral, Bool.or_eq_true] at h
    rcases h with hdigit | hpoint
    · refine ⟨cs.takeWhile isDecimalPart ++ exponentPart (cs.dropWhile isDecimalPart), ?_, fun rest => ?_⟩
      · simp [isDecimalPart, hdigit]
      · simp [startsNumeral, hdigit]
    · cases cs with
      | nil => simp at hpoint
      | cons d cs =>
        obtain ⟨rfl, hdigit⟩ : c = '.' ∧ Numeral.isDecimal d := by simpa using hpoint
        refine ⟨d :: (cs.takeWhile isDecimalPart ++ exponentPart (cs.dropWhile isDecimalPart)), ?_,
          fun rest => ?_⟩
        · simp [isDecimalPart, hdigit]
        · simp [startsNumeral, hdigit]

/-- A numeral begins with none of the characters that are looked for before it. -/
lemma plain_of_startsNumeral (h : startsNumeral c cs) :
    isBlank c = false ∧ c ≠ '-' ∧ isNameStart c = false := by
  rw [startsNumeral, Bool.or_eq_true] at h
  rcases h with hdigit | hpoint
  · have hrange : 48 ≤ c.toNat ∧ c.toNat ≤ 57 := by
      simpa [Numeral.isDecimal, Char.le_def, UInt32.le_iff_toNat_le] using hdigit
    refine ⟨?_, ?_, ?_⟩
    · by_contra hblank
      rcases eq_of_isBlank (Bool.eq_true_of_not_eq_false hblank) with rfl | rfl | rfl | rfl <;>
        simp at hrange
    · rintro rfl
      simp at hrange
    · have hunderscore : c ≠ '_' := by
        rintro rfl
        simp at hrange
      simp [isNameStart, hunderscore, Char.isAlpha, Char.isUpper, Char.isLower, UInt32.le_iff_toNat_le]
      omega
  · obtain ⟨rfl, -⟩ : c = '.' ∧ _ := by simpa using hpoint
    decide

/-! ## Symbols -/

/-- A word without the character `c` does not reach over it. -/
lemma isPrefixOf_append_cons {word : List Char} (h : c ∉ word) (cs rest : List Char) :
    word.isPrefixOf (cs ++ c :: rest) = word.isPrefixOf cs := by
  rw [Bool.eq_iff_iff, List.isPrefixOf_iff_prefix, List.isPrefixOf_iff_prefix]
  refine ⟨fun hbegins => ?_, fun hbegins => hbegins.trans (List.prefix_append _ _)⟩
  rcases Nat.lt_or_ge cs.length word.length with hlong | hshort
  · have hc : word[cs.length] = c := by
      rw [hbegins.getElem hlong, List.getElem_append_right le_rfl]
      simp
    exact absurd (hc ▸ List.getElem_mem hlong) h
  · exact List.prefix_of_prefix_length_le hbegins (List.prefix_append _ _) hshort

/-- No symbol contains a blank. -/
lemma spelling_all_not_isBlank : ∀ s ∈ Token.Kind.symbols, s.1.all (!isBlank ·) := by decide

lemma symbol?_append (h : Parted rest) (cs : List Char) :
    Token.Kind.symbol? (cs ++ rest) = Token.Kind.symbol? cs := by
  cases rest with
  | nil => rw [List.append_nil]
  | cons b rest =>
    refine List.find?_congr fun s hs => isPrefixOf_append_cons (fun hmem => ?_) cs rest
    have hblank := List.all_eq_true.1 (spelling_all_not_isBlank s hs) b hmem
    rw [parted_cons.1 h] at hblank
    cases hblank

/-- Each symbol is the longest one it begins with. -/
lemma symbol?_spelling : ∀ s ∈ Token.Kind.symbols, Token.Kind.symbol? s.1 = some s := by decide

/-- What is neither blank nor a comment, and begins no word, numeral or string, even if a blank
follows. -/
def plain : List Char → Bool
  | [] => false
  | c :: cs =>
    !isBlank c && !(c == '-' && cs.head? == some '-') && !isNameStart c && !startsNumeral c cs &&
      !(c == '"' || c == '\'') && (c != '[' || cs.isEmpty)

lemma plain_spelling : ∀ s ∈ Token.Kind.symbols, plain s.1 := by decide

/-- The first character behind a parted text's front is one of the front, or a blank. -/
lemma Parted.head?_append (h : Parted rest) {d : Char} (hd : isBlank d = false)
    (hhead : (cs ++ rest).head? = some d) : cs.head? = some d := by
  cases cs with
  | nil =>
    have hblank := h d hhead
    rw [hd] at hblank
    cases hblank
  | cons e cs => exact hhead

/-- Only a symbol can stand at the head of a plain text, whatever blank follows it. -/
lemma scan_of_plain (h : plain (c :: cs)) (hrest : Parted rest) (p : Position) :
    scan p c (cs ++ rest) = symbolToken p c (cs ++ rest) := by
  simp only [plain, Bool.and_eq_true, Bool.not_eq_true'] at h
  obtain ⟨⟨⟨⟨⟨hblank, hdash⟩, hname⟩, hnumeral⟩, hquote⟩, hbracket⟩ := h
  have hdash' : ¬(c = '-' ∧ (cs ++ rest).head? = some '-') := by
    rintro ⟨rfl, hhead⟩
    simp [hrest.head?_append rfl hhead] at hdash
  have hnumeral' : startsNumeral c (cs ++ rest) = false := by
    rw [startsNumeral, Bool.or_eq_false_iff] at hnumeral ⊢
    refine ⟨hnumeral.1, Bool.eq_false_iff.2 fun hpoint => ?_⟩
    obtain ⟨rfl, hdigit⟩ : c = '.' ∧ ((cs ++ rest).head?.map Numeral.isDecimal).getD false := by
      simpa using hpoint
    cases hhead : (cs ++ rest).head? with
    | none => rw [hhead] at hdigit; cases hdigit
    | some d =>
      rw [hhead] at hdigit
      have hd : isBlank d = false := by
        by_contra hblank
        exact absurd hdigit (by simp [isDecimal_of_isBlank d (Bool.eq_true_of_not_eq_false hblank)])
      have hdigit : Numeral.isDecimal d := hdigit
      simp [hrest.head?_append hd hhead, hdigit] at hnumeral
  have hbracket' : longBracket? (c :: (cs ++ rest)) = none := by
    by_cases hc : c = '['
    · subst hc
      obtain rfl : cs = [] := by simpa using hbracket
      cases rest with
      | nil => rfl
      | cons b rest =>
        rcases eq_of_isBlank (parted_cons.1 hrest) with rfl | rfl | rfl | rfl <;> rfl
    · simp [longBracket?, hc]
  rw [scan, if_neg (by simp [hblank]), if_neg hdash', if_neg (by simp [hname]), if_neg (by simp [hnumeral']),
    if_neg (by simpa using hquote), hbracket']

/-! ## Strings -/

/-- A character of a string in double quotes. -/
def escaped (c : Char) : List Char :=
  if c = '"' ∨ c = '\\' then ['\\', c] else if c = '\n' then ['\\', 'n'] else [c]

/-- **A string in double quotes**: quotes, backslashes and line feeds are escaped, and all other characters
stand for themselves. -/
def quotedLiteral (text : List Char) : List Char := '"' :: (text.flatMap escaped ++ ['"'])

/-- A character without an escape stands for itself. -/
lemma quoted_cons {quote : Char} (hline : c ≠ '\n') (hescape : c ≠ '\\') (hquote : c ≠ quote)
    (cs : List Char) : quoted quote (c :: cs) = (quoted quote cs).prepend c 1 := by
  rw [quoted.eq_def]
  split <;> simp_all

/-- A character with an escape is what its escape stands for. -/
lemma quoted_escape {quote d : Char} (h : escape? c = some d) (cs : List Char) :
    quoted quote ('\\' :: c :: cs) = (quoted quote cs).prepend d 2 := by
  simp [quoted, h]

/-- The string that is read behind an opening quote. -/
lemma quoted_escaped (text rest : List Char) :
    quoted '"' (text.flatMap escaped ++ '"' :: rest) = .closed text ((text.flatMap escaped).length + 1) := by
  induction text with
  | nil => rfl
  | cons c text ih =>
    rw [List.flatMap_cons, List.append_assoc, List.length_append, escaped]
    split_ifs with hspecial hline
    · have hescape : escape? c = some c := by rcases hspecial with rfl | rfl <;> rfl
      rw [List.cons_append, List.singleton_append, quoted_escape hescape, ih, Quoted.prepend]
      congr 1
      simp +arith
    · have hescape : escape? 'n' = some c := by rw [hline]; rfl
      rw [List.cons_append, List.singleton_append, quoted_escape hescape, ih, Quoted.prepend]
      congr 1
      simp +arith
    · obtain ⟨hquote, hescape⟩ := not_or.1 hspecial
      rw [List.singleton_append, quoted_cons hline hescape hquote, ih, Quoted.prepend]
      congr 1
      simp +arith

/-- **A string in long brackets** of a level. -/
def longLiteral (level : Nat) (text : List Char) : List Char :=
  '[' :: (List.replicate level '=' ++ '[' :: (text ++ longCloser level))

/-- The closing bracket of a level does not occur earlier in the text with its closing bracket. -/
def ClosesFirst (level : Nat) (text : List Char) : Prop :=
  ∀ before after, text ++ longCloser level = before ++ (longCloser level ++ after) → before = text

lemma length_longLiteral (level : Nat) (text : List Char) :
    (longLiteral level text).length = longWidth level text := by
  simp [longLiteral, longWidth, longCloser]
  omega

/-- A long bracket opens at the head of its string. -/
lemma longBracket?_longLiteral (level : Nat) (text rest : List Char) :
    longBracket? (longLiteral level text ++ rest) = some (level, text ++ (longCloser level ++ rest)) := by
  have hlevel : ∀ c ∈ List.replicate level '=', decide (c = '=') = true := by simp
  rw [longLiteral, List.cons_append, List.append_assoc, longBracket?,
    List.dropWhile_append_of_pos hlevel, List.takeWhile_append_of_pos hlevel]
  simp

/-- A closing bracket that begins a text with its closing bracket begins it before anything else. -/
lemma ClosesFirst.not_isPrefixOf {level : Nat} {text : List Char} (h : ClosesFirst level (c :: text))
    (rest : List Char) : ¬ (longCloser level).isPrefixOf (c :: (text ++ (longCloser level ++ rest))) := by
  intro hbegins
  have hwithin : longCloser level <+: c :: text ++ longCloser level := by
    refine List.prefix_of_prefix_length_le (List.isPrefixOf_iff_prefix.1 hbegins) ⟨rest, by simp⟩ ?_
    rw [List.length_append]
    exact Nat.le_add_left _ _
  obtain ⟨after, hafter⟩ := hwithin
  exact List.cons_ne_nil c text (h [] after hafter.symm).symm

lemma ClosesFirst.tail {level : Nat} {text : List Char} (h : ClosesFirst level (c :: text)) :
    ClosesFirst level text := by
  intro before after heq
  exact (List.cons.inj (h (c :: before) after (congrArg (c :: ·) heq))).2

/-- **The text in long brackets** ends at the first closing bracket. -/
lemma longText?_of_closesFirst {level : Nat} {text : List Char} (h : ClosesFirst level text)
    (rest : List Char) : longText? level (text ++ (longCloser level ++ rest)) = some text := by
  induction text with
  | nil =>
    have hbegins : (longCloser level).isPrefixOf (longCloser level ++ rest) :=
      List.isPrefixOf_iff_prefix.2 (List.prefix_append _ _)
    rw [List.nil_append]
    exact if_pos hbegins
  | cons c text ih =>
    rw [List.cons_append, longText?, if_neg (h.not_isPrefixOf rest), ih h.tail, Option.map_some]

/-! ## Reading a token -/

/-- A token is passed over, and put in front of what is behind it. -/
lemma tokensFrom_scan {kind : Token.Kind} {lexeme : String}
    (h : scan p c (cs ++ rest) = .token kind lexeme cs.length) :
    tokensFrom p (c :: cs ++ rest) =
      (tokensFrom (p.advance (c :: cs)) rest).map (⟨kind, p, lexeme⟩ :: ·) := by
  rw [List.cons_append, tokensFrom_token h, List.take_left, List.drop_left]

/-- A blank piece is passed over. -/
lemma tokensFrom_pass (h : scan p c (cs ++ rest) = .blank cs.length) :
    tokensFrom p (c :: cs ++ rest) = tokensFrom (p.advance (c :: cs)) rest := by
  rw [List.cons_append, tokensFrom_blank h, List.take_left, List.drop_left]

/-- **A text is carried by a string in double quotes**, wherever that stands. -/
theorem tokensFrom_quotedLiteral (p : Position) (text rest : List Char) :
    tokensFrom p (quotedLiteral text ++ rest) =
      (tokensFrom (p.advance (quotedLiteral text)) rest).map
        (⟨.string, p, String.ofList text⟩ :: ·) := by
  refine tokensFrom_scan ?_
  have hread := quoted_escaped text rest
  rw [List.append_assoc, List.singleton_append]
  change stringToken p '"' _ = _
  rw [stringToken, hread, List.length_append, List.length_singleton]

/-- **A text is carried by a string in long brackets** of a level whose closing bracket does not occur in it,
wherever that stands. -/
theorem tokensFrom_longLiteral {level : Nat} {text : List Char} (h : ClosesFirst level text) (p : Position)
    (rest : List Char) :
    tokensFrom p (longLiteral level text ++ rest) =
      (tokensFrom (p.advance (longLiteral level text)) rest).map
        (⟨.string, p, String.ofList text⟩ :: ·) := by
  have hopen := longBracket?_longLiteral level text rest
  have hscan : scan p '[' (List.replicate level '=' ++ '[' :: (text ++ longCloser level) ++ rest) =
      .token .string (String.ofList text) (longWidth level text - 1) := by
    rw [longLiteral, List.cons_append] at hopen
    rw [scan, hopen]
    simp [isBlank, isNameStart, startsNumeral, Numeral.isDecimal, longText?_of_closesFirst h rest]
  refine tokensFrom_scan (hscan.trans ?_)
  rw [← length_longLiteral]
  rfl

/-- **A spelling of a token**: it is read as the token in front of any blank. -/
def ReadAs (kind : Token.Kind) (lexeme : String) (text : List Char) : Prop :=
  ∀ p rest, Parted rest →
    tokensFrom p (text ++ rest) = (tokensFrom (p.advance text) rest).map (⟨kind, p, lexeme⟩ :: ·)

lemma readAs_word (h : isNameStart c) (cs : List Char) :
    ReadAs (.ofWord (String.ofList (c :: cs.takeWhile isNamePart)))
      (String.ofList (c :: cs.takeWhile isNamePart)) (c :: cs.takeWhile isNamePart) := by
  intro p rest hrest
  have hdash : ¬(c = '-' ∧ (cs.takeWhile isNamePart ++ rest).head? = some '-') := by
    rintro ⟨rfl, -⟩
    cases h
  have htake : (cs.takeWhile isNamePart ++ rest).takeWhile isNamePart = cs.takeWhile isNamePart :=
    hrest.takeWhile_append isNamePart_of_isBlank fun _ => List.mem_takeWhile_imp
  refine tokensFrom_scan ?_
  rw [scan, if_neg (by simp [not_isBlank_of_isNameStart h]), if_neg hdash, if_pos h, htake]
  rfl

lemma readAs_numeral {value : Binary64} (h : startsNumeral c cs)
    (hvalue : Numeral.literal? (String.ofList (numeralText (c :: cs))) = some value) :
    ReadAs .number (String.ofList (numeralText (c :: cs))) (numeralText (c :: cs)) := by
  intro p rest hrest
  have hagain := numeralText_append hrest (c :: cs)
  obtain ⟨ds, hds, hstart⟩ := numeralText_cons h
  rw [hds] at hvalue hagain ⊢
  rw [List.cons_append] at hagain
  obtain ⟨hblank, hdash, hname⟩ := plain_of_startsNumeral (hstart rest)
  refine tokensFrom_scan ?_
  rw [scan, if_neg (by simp [hblank]), if_neg (fun hc => hdash hc.1), if_neg (by simp [hname]),
    if_pos (hstart rest), numberToken, hagain, hvalue]
  rfl

lemma readAs_symbol {spelling : List Char} {kind : Token.Kind} (h : (spelling, kind) ∈ Token.Kind.symbols) :
    ReadAs kind (String.ofList spelling) spelling := by
  intro p rest hrest
  have hplain := plain_spelling _ h
  have hsymbol := symbol?_spelling _ h
  cases spelling with
  | nil => cases hplain
  | cons c cs =>
    refine tokensFrom_scan ?_
    rw [scan_of_plain hplain hrest, symbolToken, ← List.cons_append, symbol?_append hrest]
    rw [hsymbol]
    rfl

/-! ## Between tokens -/

/-- **What can stand between two tokens**: blanks, comments that end with their line, and comments in long
brackets. -/
inductive Gap : List Char → Prop
  | nil : Gap []
  | blank {c : Char} {cs : List Char} : isBlank c → Gap cs → Gap (c :: cs)
  | line {text cs : List Char} : '\n' ∉ text → longBracket? text = none → Gap cs →
      Gap ('-' :: '-' :: (text ++ '\n' :: cs))
  | long {level : Nat} {text cs : List Char} : ClosesFirst level text → Gap cs →
      Gap ('-' :: '-' :: (longLiteral level text ++ cs))

/-- **A filler**: it begins with a blank and goes on with blanks and comments. -/
def Filler (cs : List Char) : Prop := ∃ c gap, cs = c :: gap ∧ isBlank c ∧ Gap gap

/-- No long bracket opens over the end of a line. -/
lemma longBracket?_append_line {text : List Char} (h : longBracket? text = none) (rest : List Char) :
    longBracket? (text ++ '\n' :: rest) = none := by
  cases text with
  | nil => rfl
  | cons c text =>
    by_cases hc : c = '['
    · subst hc
      rw [longBracket?] at h
      rw [List.cons_append, longBracket?, List.dropWhile_append]
      split at h
      · cases h
      · next hbody =>
        rcases hdrop : text.dropWhile (· = '=') with _ | ⟨d, body⟩
        · rfl
        · have hd : d ≠ '[' := by
            rintro rfl
            exact hbody body hdrop
          simp [hd]
    · simp [longBracket?, hc]

lemma scan_comment (p : Position) (cs : List Char) : scan p '-' ('-' :: cs) = comment p cs := by
  simp [scan, isBlank]

/-- **Blanks and comments are passed over.** -/
theorem tokensFrom_gap {gap : List Char} (h : Gap gap) (p : Position) (rest : List Char) :
    tokensFrom p (gap ++ rest) = tokensFrom (p.advance gap) rest := by
  induction h generalizing p with
  | nil => rfl
  | @blank c cs hblank _ ih =>
    have hscan : scan p c ([] ++ (cs ++ rest)) = .blank ([] : List Char).length := by
      rw [scan, if_pos hblank]
      rfl
    exact (tokensFrom_pass hscan).trans (ih _)
  | @line text cs hline hopen _ ih =>
    have htake : (text ++ '\n' :: (cs ++ rest)).takeWhile (· ≠ '\n') = text := by
      rw [List.takeWhile_append_of_pos (by simpa using fun c hc => ne_of_mem_of_not_mem hc hline)]
      simp
    have hscan : scan p '-' ('-' :: text ++ '\n' :: (cs ++ rest)) = .blank ('-' :: text).length := by
      rw [List.cons_append, scan_comment, comment, longBracket?_append_line hopen, htake]
      rfl
    have hline_end (q : Position) : scan q '\n' ([] ++ (cs ++ rest)) = .blank ([] : List Char).length := rfl
    calc tokensFrom p ('-' :: '-' :: (text ++ '\n' :: cs) ++ rest)
        = tokensFrom p ('-' :: ('-' :: text) ++ '\n' :: (cs ++ rest)) := by simp
      _ = tokensFrom (p.advance ('-' :: '-' :: text)) ('\n' :: [] ++ (cs ++ rest)) := tokensFrom_pass hscan
      _ = tokensFrom ((p.advance ('-' :: '-' :: text)).advance ['\n']) (cs ++ rest) :=
        tokensFrom_pass (hline_end _)
      _ = _ := by
        rw [ih, ← Position.advance_append, ← Position.advance_append]
        simp
  | @long level text cs hcloses _ ih =>
    have hscan : scan p '-' ('-' :: longLiteral level text ++ (cs ++ rest)) =
        .blank ('-' :: longLiteral level text).length := by
      rw [List.cons_append, scan_comment, comment, longBracket?_longLiteral]
      simp only [longText?_of_closesFirst hcloses]
      rw [List.length_cons, length_longLiteral]
    calc tokensFrom p ('-' :: '-' :: (longLiteral level text ++ cs) ++ rest)
        = tokensFrom p ('-' :: ('-' :: longLiteral level text) ++ (cs ++ rest)) := by simp
      _ = tokensFrom (p.advance ('-' :: '-' :: longLiteral level text)) (cs ++ rest) :=
        tokensFrom_pass hscan
      _ = _ := by
        rw [ih, ← Position.advance_append]
        simp

end ScriptCore.Lexer
