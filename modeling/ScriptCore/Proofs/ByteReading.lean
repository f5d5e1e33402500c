import ScriptCore.Proofs.LossyDecoding
import ScriptCore.Proofs.Relexing

set_option relaxedAutoImplicit false
set_option autoImplicit false

/-!
# Reading a text byte by byte

The lexer looks for characters of one byte only: all others stand in strings and comments, or are refused. It
can therefore read the bytes of a text one by one, each taken for a character of its own, and needs to decode
no more than the lexemes it has found. A part of a text that is found in this way ends where a character of
the text ends, so that decoding it replaces nothing.

## Main definitions

* `ScriptCore.Lexer.byteText`, `ScriptCore.Lexer.lossy` — the bytes of a text as characters, and their text.
* `ScriptCore.Lexer.Narrow`, `ScriptCore.Lexer.Bytewise` — conditions on the bytes of a character.
* `ScriptCore.Lexer.QuotedAlike`, `ScriptCore.Lexer.Alike` — what is read in a text and in its bytes.
* `ScriptCore.Lexer.readBytes` — what bytes say.

## Main results

* `ScriptCore.Lexer.lossy_byteText` — decoding the bytes of a text.
* `ScriptCore.Lexer.alike_scan` — the piece at the head of a text.
* `ScriptCore.Lexer.readBytes_bytes` — the tokens of a text.
-/

namespace ScriptCore.Lexer

/-! ## Texts of bytes -/

/-- The character whose number is a byte. -/
def byteChar (b : UInt8) : Char := Char.ofNat b.toNat

/-- **The bytes of a text, each as a character of its own.** -/
def byteText (cs : List Char) : List Char :=
  (cs.flatMap String.utf8EncodeChar).map byteChar

/-- The text of characters that stand for bytes, with replacement characters where they are no text. -/
def lossy (cs : List Char) : String := Text.showBytes (cs.map fun c => UInt8.ofNat c.toNat)

variable {c : Char} {cs : List Char}

lemma toNat_byteChar (b : UInt8) : (byteChar b).toNat = b.toNat := by
  have hb : b.toNat.isValidChar := .inl (b.toNat_lt.trans (by decide))
  rw [byteChar, Char.ofNat, dif_pos hb]
  rfl

/-- **Decoding the bytes of a text** gives the text, and replaces nothing. -/
theorem lossy_byteText (cs : List Char) : lossy (byteText cs) = String.ofList cs := by
  have hbytes : (byteText cs).map (fun c => UInt8.ofNat c.toNat) = cs.flatMap String.utf8EncodeChar := by
    rw [byteText, List.map_map]
    refine (List.map_congr_left fun b _ => ?_).trans (List.map_id _)
    rw [Function.comp_apply, toNat_byteChar, UInt8.ofNat_toNat]
    rfl
  rw [lossy, hbytes, Text.showBytes, Text.chars_flatMap_utf8EncodeChar]

@[simp]
lemma byteText_nil : byteText [] = [] := rfl

lemma byteText_append (cs ds : List Char) : byteText (cs ++ ds) = byteText cs ++ byteText ds := by
  rw [byteText, List.flatMap_append, List.map_append]
  rfl

lemma byteText_cons (c : Char) (cs : List Char) : byteText (c :: cs) = byteText [c] ++ byteText cs :=
  byteText_append [c] cs

/-- A character of one byte is its byte. -/
lemma byteText_singleton (h : c.toNat < 0x80) : byteText [c] = [c] := by
  have hbytes : String.utf8EncodeChar c = [UInt8.ofNat c.toNat] := if_pos (Nat.le_of_lt_succ h)
  have hc : byteChar (UInt8.ofNat c.toNat) = c := by
    rw [byteChar, Text.toNat_ofNat_of_lt (by omega), Char.ofNat_toNat]
  rw [byteText, List.flatMap_singleton, hbytes, List.map_singleton, hc]

lemma byteText_cons_of_lt (h : c.toNat < 0x80) (cs : List Char) : byteText (c :: cs) = c :: byteText cs := by
  rw [byteText_cons, byteText_singleton h, List.singleton_append]

/-- A text of characters of one byte is its bytes. -/
lemma byteText_of_forall_lt (h : ∀ c ∈ cs, c.toNat < 0x80) : byteText cs = cs := by
  induction cs with
  | nil => rfl
  | cons c cs ih =>
    obtain ⟨hc, hcs⟩ := List.forall_mem_cons.1 h
    rw [byteText_cons_of_lt hc, ih hcs]

/-- A character of more bytes has no character of one byte among them. -/
lemma exists_byteText_singleton (h : 0x80 ≤ c.toNat) :
    ∃ d ds, byteText [c] = d :: ds ∧ ∀ e ∈ d :: ds, 0x80 ≤ e.toNat := by
  have hbyte (n : ℕ) (hn : 0x80 ≤ n) (hn' : n < 0x100) : 0x80 ≤ (UInt8.ofNat n).toNat := by
    rwa [Text.toNat_ofNat_of_lt hn']
  have hall : ∀ b ∈ String.utf8EncodeChar c, 0x80 ≤ b.toNat := by
    rw [String.utf8EncodeChar]
    change ∀ b ∈ (if c.toNat ≤ 127 then _ else if c.toNat ≤ 2047 then _ else
      if c.toNat ≤ 65535 then _ else _), _
    rw [if_neg (by omega)]
    split_ifs
    all_goals
      simp only [List.forall_mem_cons]
      refine ⟨hbyte _ (by omega) (by omega), ?_⟩
      repeat first | exact List.forall_mem_nil _ | refine ⟨hbyte _ (by omega) (by omega), ?_⟩
  have hchars : ∀ e ∈ byteText [c], 0x80 ≤ e.toNat := by
    rw [byteText, List.flatMap_singleton]
    intro e he
    obtain ⟨b, hb, rfl⟩ := List.mem_map.1 he
    rw [toNat_byteChar]
    exact hall b hb
  cases htext : byteText [c] with
  | nil =>
    rw [byteText, List.flatMap_singleton, List.map_eq_nil_iff] at htext
    exact absurd htext String.utf8EncodeChar_ne_nil
  | cons d ds => exact ⟨d, ds, rfl, htext ▸ hchars⟩

/-! ## What is looked for in a text -/

/-- A condition that the characters of more bytes all meet, or all fail. -/
def Bytewise (f : Char → Bool) : Prop := ∃ v, ∀ c : Char, 0x80 ≤ c.toNat → f c = v

/-- Such a condition holds of the bytes of a character just if it holds of the character. -/
lemma Bytewise.apply {f : Char → Bool} (hf : Bytewise f) : ∀ d ∈ byteText [c], f d = f c := by
  intro d hd
  obtain ⟨v, hv⟩ := hf
  rcases Nat.lt_or_ge c.toNat 0x80 with hlow | hhigh
  · rw [byteText_singleton hlow] at hd
    rw [List.mem_singleton.1 hd]
  · obtain ⟨e, es, htext, hes⟩ := exists_byteText_singleton hhigh
    rw [hv c hhigh, hv d (hes d (htext ▸ hd))]

lemma byteText_singleton_ne_nil (c : Char) : byteText [c] ≠ [] := by
  rcases Nat.lt_or_ge c.toNat 0x80 with hlow | hhigh
  · rw [byteText_singleton hlow]
    exact List.cons_ne_nil _ _
  · obtain ⟨d, ds, htext, -⟩ := exists_byteText_singleton hhigh
    rw [htext]
    exact List.cons_ne_nil _ _

lemma Bytewise.takeWhile_byteText {f : Char → Bool} (hf : Bytewise f) (cs : List Char) :
    (byteText cs).takeWhile f = byteText (cs.takeWhile f) := by
  induction cs with
  | nil => rfl
  | cons c cs ih =>
    have hbytes := hf.apply (c := c)
    rw [byteText_cons, List.takeWhile_cons]
    by_cases hc : f c
    · rw [List.takeWhile_append_of_pos fun d hd => (hbytes d hd).trans hc, ih, if_pos hc,
        ← byteText_append, List.singleton_append]
    · rw [if_neg hc]
      cases htext : byteText [c] with
      | nil => exact absurd htext (byteText_singleton_ne_nil c)
      | cons d ds =>
        have hd : ¬ f d := by rwa [hbytes d (htext ▸ List.mem_cons_self)]
        rw [List.cons_append, List.takeWhile_cons_of_neg hd, byteText_nil]

lemma Bytewise.dropWhile_byteText {f : Char → Bool} (hf : Bytewise f) (cs : List Char) :
    (byteText cs).dropWhile f = byteText (cs.dropWhile f) := by
  have hcs : byteText (cs.takeWhile f) ++ byteText (cs.dropWhile f) =
      (byteText cs).takeWhile f ++ (byteText cs).dropWhile f := by
    rw [← byteText_append, List.takeWhile_append_dropWhile, List.takeWhile_append_dropWhile]
  rw [hf.takeWhile_byteText] at hcs
  exact (List.append_cancel_left hcs).symm

/-- The first character of a text, if it has one byte. -/
lemma head?_byteText {d : Char} (hd : d.toNat < 0x80) (cs : List Char) :
    (byteText cs).head? = some d ↔ cs.head? = some d := by
  cases cs with
  | nil => rfl
  | cons c cs =>
    rcases Nat.lt_or_ge c.toNat 0x80 with hlow | hhigh
    · rw [byteText_cons_of_lt hlow]
      rfl
    · obtain ⟨e, es, htext, hes⟩ := exists_byteText_singleton hhigh
      have he := hes e List.mem_cons_self
      rw [byteText_cons, htext, List.cons_append, List.head?_cons, List.head?_cons, Option.some_inj,
        Option.some_inj]
      constructor <;> rintro rfl <;> omega

/-- A text that begins with a character of one byte. -/
lemma exists_of_byteText_eq_cons {d : Char} {ds : List Char} (hd : d.toNat < 0x80)
    (h : byteText cs = d :: ds) : ∃ rest, cs = d :: rest ∧ byteText rest = ds := by
  have hhead := (head?_byteText hd cs).1 (h ▸ rfl)
  obtain ⟨rest, rfl⟩ : ∃ rest, cs = d :: rest := by
    cases cs with
    | nil => cases hhead
    | cons c cs => exact ⟨cs, by rw [Option.some_inj.1 hhead]⟩
  rw [byteText_cons_of_lt hd] at h
  exact ⟨rest, rfl, (List.cons.inj h).2⟩

/-- A word of characters of one byte begins the bytes of a text just if it begins the text. -/
lemma isPrefixOf_byteText {word : List Char} (h : ∀ c ∈ word, c.toNat < 0x80) (cs : List Char) :
    word.isPrefixOf (byteText cs) = word.isPrefixOf cs := by
  rw [Bool.eq_iff_iff, List.isPrefixOf_iff_prefix, List.isPrefixOf_iff_prefix]
  induction word generalizing cs with
  | nil => simp
  | cons d word ih =>
    obtain ⟨hd, hword⟩ := List.forall_mem_cons.1 h
    constructor
    · rintro ⟨after, hafter⟩
      obtain ⟨rest, rfl, hrest⟩ := exists_of_byteText_eq_cons hd hafter.symm
      exact (List.prefix_cons_inj d).2 ((ih hword rest).1 ⟨after, hrest.symm⟩)
    · rintro ⟨after, rfl⟩
      rw [List.cons_append, byteText_cons_of_lt hd, List.prefix_cons_inj]
      exact (ih hword _).2 (List.prefix_append _ _)

lemma ne_of_toNat_lt {d : Char} (h : 0x80 ≤ c.toNat) (hd : d.toNat < 0x80) : c ≠ d := by
  rintro rfl
  omega

/-- A condition that only characters of one byte meet. -/
def Narrow (f : Char → Bool) : Prop := ∀ c : Char, 0x80 ≤ c.toNat → f c = false

lemma Narrow.bytewise {f : Char → Bool} (hf : Narrow f) : Bytewise f := ⟨false, hf⟩

lemma Narrow.lt {f : Char → Bool} (hf : Narrow f) (h : f c) : c.toNat < 0x80 := by
  by_contra hhigh
  rw [hf c (by omega)] at h
  cases h

/-- The characters at the head of a text that meet such a condition are their bytes. -/
lemma Narrow.takeWhile_byteText {f : Char → Bool} (hf : Narrow f) (cs : List Char) :
    (byteText cs).takeWhile f = cs.takeWhile f := by
  rw [hf.bytewise.takeWhile_byteText, byteText_of_forall_lt]
  exact fun c hc => hf.lt (List.mem_takeWhile_imp hc)

lemma narrow_eq {d : Char} (hd : d.toNat < 0x80) : Narrow (fun c => decide (c = d)) :=
  fun _ hc => decide_eq_false (ne_of_toNat_lt hc hd)

lemma narrow_isBlank : Narrow isBlank := by
  intro c hc
  simp [isBlank, ne_of_toNat_lt hc]

lemma narrow_isDecimal : Narrow Numeral.isDecimal := by
  intro c hc
  have hnine : ¬ c ≤ '9' := by
    rw [Char.le_def, UInt32.le_iff_toNat_le]
    exact fun hle => absurd (hc.trans hle) (by decide)
  simp [Numeral.isDecimal, hnine]

lemma narrow_isNamePart : Narrow isNamePart := by
  intro c hc
  have hc' : 128 ≤ c.val.toNat := hc
  simp [isNamePart, Char.isAlphanum, Char.isAlpha, Char.isUpper, Char.isLower, Char.isDigit,
    UInt32.le_iff_toNat_le, ne_of_toNat_lt hc]
  omega

lemma narrow_isNameStart : Narrow isNameStart := by
  intro c hc
  have hpart := narrow_isNamePart c hc
  simp only [isNamePart, isNameStart, Char.isAlphanum, Bool.or_eq_false_iff] at hpart ⊢
  exact ⟨hpart.1.1, hpart.2⟩

lemma narrow_isHexPart : Narrow isHexPart := by
  intro c hc
  have hletters : ¬ c ≤ 'f' ∧ ¬ c ≤ 'F' := by
    rw [Char.le_def, Char.le_def, UInt32.le_iff_toNat_le, UInt32.le_iff_toNat_le]
    exact ⟨fun hle => absurd (hc.trans hle) (by decide), fun hle => absurd (hc.trans hle) (by decide)⟩
  simp [isHexPart, Numeral.isHexadecimal, narrow_isDecimal c hc, hletters, ne_of_toNat_lt hc]

lemma narrow_isDecimalPart : Narrow isDecimalPart := by
  intro c hc
  simp [isDecimalPart, narrow_isDecimal c hc, ne_of_toNat_lt hc]

/-! ## Long brackets -/

lemma longBracket?_of_ne (h : ∀ c ∈ cs.head?, c ≠ '[') : longBracket? cs = none := by
  cases cs with
  | nil => rfl
  | cons c cs => simp [longBracket?, h c rfl]

lemma longBracket?_byteText (cs : List Char) :
    longBracket? (byteText cs) = (longBracket? cs).map fun x => (x.1, byteText x.2) := by
  by_cases hhead : cs.head? = some '['
  · obtain ⟨rest, rfl⟩ := List.head?_eq_some_iff.1 hhead
    have hequals : Narrow (fun c => decide (c = '=')) := narrow_eq (by decide)
    rw [byteText_cons_of_lt (by decide), longBracket?, longBracket?, hequals.takeWhile_byteText,
      hequals.bytewise.dropWhile_byteText]
    by_cases hbody : (rest.dropWhile (· = '=')).head? = some '['
    · obtain ⟨body, hbody⟩ := List.head?_eq_some_iff.1 hbody
      rw [hbody, byteText_cons_of_lt (by decide)]
      rfl
    · have hbody' : (byteText (rest.dropWhile (· = '='))).head? ≠ some '[' :=
        fun h => hbody ((head?_byteText (by decide) _).1 h)
      split
      · next heq => rw [heq] at hbody'; exact absurd rfl hbody'
      · split
        · next heq => rw [heq] at hbody; exact absurd rfl hbody
        · rfl
  · rw [longBracket?_of_ne, longBracket?_of_ne]
    · rfl
    · rintro c hc rfl
      exact hhead hc
    · rintro c hc rfl
      exact hhead ((head?_byteText (by decide) cs).1 hc)

/-- Characters in front of which no closing bracket stands belong to the text in long brackets. -/
lemma longText?_append {level : ℕ} {ds : List Char} (h : ∀ d ∈ ds, d ≠ ']') (cs : List Char) :
    longText? level (ds ++ cs) = (longText? level cs).map (ds ++ ·) := by
  induction ds with
  | nil => simp
  | cons d ds ih =>
    obtain ⟨hd, hds⟩ := List.forall_mem_cons.1 h
    have hbegins : (longCloser level).isPrefixOf (d :: (ds ++ cs)) = false := by
      simp [longCloser, List.isPrefixOf, Ne.symm hd]
    rw [List.cons_append, longText?, hbegins, if_neg Bool.false_ne_true, ih hds, Option.map_map]
    rfl

lemma longCloser_lt (level : ℕ) : ∀ c ∈ longCloser level, c.toNat < 0x80 := by
  intro c hc
  simp only [longCloser, List.mem_cons, List.mem_append, List.mem_replicate, List.not_mem_nil,
    or_false] at hc
  rcases hc with rfl | ⟨-, rfl⟩ | rfl <;> decide

lemma longText?_byteText (level : ℕ) (cs : List Char) :
    longText? level (byteText cs) = (longText? level cs).map byteText := by
  induction cs with
  | nil => rfl
  | cons c cs ih =>
    rcases Nat.lt_or_ge c.toNat 0x80 with hlow | hhigh
    · have hbegins := isPrefixOf_byteText (longCloser_lt level) (c :: cs)
      rw [byteText_cons_of_lt hlow] at hbegins ⊢
      rw [longText?, longText?, hbegins, ih, Option.map_map]
      split
      · rfl
      · rw [Option.map_map]
        congr 1
        funext text
        exact (byteText_cons_of_lt hlow text).symm
    · obtain ⟨d, ds, htext, hds⟩ := exists_byteText_singleton hhigh
      have hc : longText? level (c :: cs) = (longText? level cs).map (c :: ·) :=
        longText?_append (List.forall_mem_singleton.2 (ne_of_toNat_lt hhigh (by decide))) cs
      rw [byteText_cons, htext, longText?_append fun e he => ne_of_toNat_lt (hds e he) (by decide), ih, hc,
        Option.map_map, Option.map_map]
      congr 1
      funext text
      rw [Function.comp_apply, Function.comp_apply, byteText_cons, htext]

/-- The closing bracket stands behind the text in long brackets. -/
lemma exists_of_longText? {level : ℕ} {text : List Char} (h : longText? level cs = some text) :
    ∃ rest, cs = text ++ (longCloser level ++ rest) := by
  induction cs generalizing text with
  | nil => cases h
  | cons c cs ih =>
    rw [longText?] at h
    split at h
    · next hbegins =>
      cases h
      obtain ⟨rest, hrest⟩ := List.isPrefixOf_iff_prefix.1 hbegins
      exact ⟨rest, hrest.symm⟩
    · obtain ⟨text, htext, rfl⟩ := Option.map_eq_some_iff.1 h
      obtain ⟨rest, rfl⟩ := ih htext
      exact ⟨rest, rfl⟩

/-- The opening bracket stands in front of the text in long brackets. -/
lemma eq_of_longBracket? {level : ℕ} {body : List Char} (h : longBracket? cs = some (level, body)) :
    cs = '[' :: (List.replicate level '=' ++ '[' :: body) := by
  unfold longBracket? at h
  split at h
  · next rest =>
    split at h
    · next heq =>
      cases h
      have hequals : rest.takeWhile (· = '=') =
          List.replicate (rest.takeWhile (· = '=')).length '=' :=
        List.eq_replicate_of_mem fun c hc => by simpa using List.mem_takeWhile_imp hc
      rw [← hequals, ← heq, List.takeWhile_append_dropWhile]
    · cases h
  · cases h

/-- What the lexer takes for a string in long brackets is one. -/
lemma exists_longLiteral {level : ℕ} {body text : List Char} (h : longBracket? cs = some (level, body))
    (htext : longText? level body = some text) : ∃ rest, cs = longLiteral level text ++ rest := by
  obtain ⟨rest, rfl⟩ := exists_of_longText? htext
  exact ⟨rest, by rw [eq_of_longBracket? h]; simp [longLiteral]⟩

lemma byteText_longLiteral (level : ℕ) (text : List Char) :
    byteText (longLiteral level text) = longLiteral level (byteText text) := by
  have hequals : ∀ c ∈ List.replicate level '=', c.toNat < 0x80 := by
    intro c hc
    rw [(List.mem_replicate.1 hc).2]
    decide
  rw [longLiteral, byteText_cons_of_lt (by decide), byteText_append, byteText_of_forall_lt hequals,
    byteText_cons_of_lt (by decide), byteText_append, byteText_of_forall_lt (longCloser_lt level)]
  rfl

/-! ## Numerals -/

lemma exponentText_byteText (cs : List Char) : exponentText (byteText cs) = exponentText cs := by
  by_cases hsign : ∀ c ∈ cs.head?, c ≠ '+' ∧ c ≠ '-'
  · rw [exponentText_of_no_sign hsign, exponentText_of_no_sign, narrow_isDecimal.takeWhile_byteText]
    intro c hc
    constructor
    all_goals
      rintro rfl
      simpa using hsign _ ((head?_byteText (by decide) cs).1 hc)
  · cases cs with
    | nil => rfl
    | cons c cs =>
      have hc : c = '+' ∨ c = '-' := by
        by_contra hno
        exact hsign (by simpa using not_or.1 hno)
      have hlow : c.toNat < 0x80 := by rcases hc with rfl | rfl <;> decide
      rw [byteText_cons_of_lt hlow, exponentText, exponentText, if_pos hc, if_pos hc,
        narrow_isDecimal.takeWhile_byteText]

lemma exponentPart_byteText (cs : List Char) : exponentPart (byteText cs) = exponentPart cs := by
  cases cs with
  | nil => rfl
  | cons c cs =>
    rcases Nat.lt_or_ge c.toNat 0x80 with hlow | hhigh
    · rw [byteText_cons_of_lt hlow, exponentPart, exponentPart, exponentText_byteText]
    · obtain ⟨d, ds, htext, hds⟩ := exists_byteText_singleton hhigh
      have hd := hds d List.mem_cons_self
      rw [byteText_cons, htext, List.cons_append, exponentPart, exponentPart]
      rw [if_neg (not_or.2 ⟨ne_of_toNat_lt hd (by decide), ne_of_toNat_lt hd (by decide)⟩),
        if_neg (not_or.2 ⟨ne_of_toNat_lt hhigh (by decide), ne_of_toNat_lt hhigh (by decide)⟩)]

/-- A numeral is made of characters of one byte. -/
lemma numeralText_byteText (cs : List Char) : numeralText (byteText cs) = numeralText cs := by
  by_cases hmark : HexMarked cs
  · obtain ⟨d, ds, hd, rfl⟩ := hmark
    have hlow : d.toNat < 0x80 := by rcases hd with rfl | rfl <;> decide
    rw [byteText_cons_of_lt (by decide), byteText_cons_of_lt hlow]
    rcases hd with rfl | rfl <;> simp [numeralText, narrow_isHexPart.takeWhile_byteText]
  · have hmark' : ¬ HexMarked (byteText cs) := by
      rintro ⟨d, ds, hd, heq⟩
      have hlow : d.toNat < 0x80 := by rcases hd with rfl | rfl <;> decide
      obtain ⟨cs', rfl, hbehind⟩ := exists_of_byteText_eq_cons (by decide) heq
      obtain ⟨rest, rfl, -⟩ := exists_of_byteText_eq_cons hlow hbehind
      exact hmark ⟨d, rest, hd, rfl⟩
    rw [numeralText_of_not_hexMarked hmark, numeralText_of_not_hexMarked hmark', decimalText_eq,
      decimalText_eq, narrow_isDecimalPart.takeWhile_byteText,
      narrow_isDecimalPart.bytewise.dropWhile_byteText, exponentPart_byteText]

/-- The characters of a numeral have one byte each. -/
lemma numeralText_lt (cs : List Char) : ∀ d ∈ numeralText cs, d.toNat < 0x80 := by
  intro d hd
  have hpart := isNumeralPart_of_mem cs d hd
  simp only [isNumeralPart, Bool.or_eq_true] at hpart
  rcases hpart with (hpart | hpart) | hpart
  · exact narrow_isHexPart.lt hpart
  · exact narrow_isDecimalPart.lt hpart
  · have hother : ∀ e ∈ ['x', 'X', '+', '-'], e.toNat < 0x80 := by simp
    exact hother d (by simpa using hpart)

lemma startsNumeral_byteText (c : Char) (cs : List Char) :
    startsNumeral c (byteText cs) = startsNumeral c cs := by
  rw [startsNumeral, startsNumeral]
  congr 2
  cases cs with
  | nil => rfl
  | cons d cs =>
    rcases Nat.lt_or_ge d.toNat 0x80 with hlow | hhigh
    · rw [byteText_cons_of_lt hlow]
      rfl
    · obtain ⟨e, es, htext, hes⟩ := exists_byteText_singleton hhigh
      rw [byteText_cons, htext]
      simp [narrow_isDecimal d hhigh, narrow_isDecimal e (hes e List.mem_cons_self)]

lemma numeralText_isPrefix (cs : List Char) : numeralText cs <+: cs := by
  by_cases hmark : HexMarked cs
  · obtain ⟨d, ds, hd, rfl⟩ := hmark
    have hbegins : '0' :: d :: ds.takeWhile isHexPart <+: '0' :: d :: ds :=
      (List.prefix_cons_inj _).2 ((List.prefix_cons_inj _).2 (List.takeWhile_prefix _))
    rcases hd with rfl | rfl <;> exact hbegins
  · rw [numeralText_of_not_hexMarked hmark]
    exact decimalText_isPrefix cs

/-! ## Symbols -/

lemma spelling_all_lt : ∀ s ∈ Token.Kind.symbols, s.1.all (·.toNat < 0x80) := by decide

lemma symbol?_byteText (cs : List Char) : Token.Kind.symbol? (byteText cs) = Token.Kind.symbol? cs := by
  refine List.find?_congr fun s hs => isPrefixOf_byteText (fun c hc => ?_) cs
  simpa using List.all_eq_true.1 (spelling_all_lt s hs) c hc

/-! ## Quoted strings -/

/-- What is read behind an opening quote of a text, and of its bytes: both strings end, behind the same
characters, or none does. -/
inductive QuotedAlike (cs : List Char) : Quoted → Quoted → Prop
  | closed {spelled rest text : List Char} : cs = spelled ++ rest →
      QuotedAlike cs (.closed text spelled.length) (.closed (byteText text) (byteText spelled).length)
  | unclosed : QuotedAlike cs .unclosed .unclosed
  | badEscape {before before' : ℕ} {c c' : Char} :
      QuotedAlike cs (.badEscape before c) (.badEscape before' c')

/-- The string with more characters in front. -/
def Quoted.behind (ds : List Char) (width : ℕ) : Quoted → Quoted
  | .closed text n => .closed (ds ++ text) (n + width)
  | .unclosed => .unclosed
  | .badEscape before d => .badEscape (before + width) d

lemma Quoted.prepend_eq_behind (d : Char) (width : ℕ) (q : Quoted) :
    q.prepend d width = q.behind [d] width := by
  cases q <;> rfl

/-- Characters without a meaning of their own stand for themselves. -/
lemma quoted_append {quote : Char} {ds : List Char}
    (h : ∀ d ∈ ds, d ≠ '\n' ∧ d ≠ '\\' ∧ d ≠ quote) (cs : List Char) :
    quoted quote (ds ++ cs) = (quoted quote cs).behind ds ds.length := by
  induction ds with
  | nil =>
    rw [List.nil_append]
    cases quoted quote cs <;> rfl
  | cons d ds ih =>
    obtain ⟨⟨hline, hescape, hquote⟩, hds⟩ := List.forall_mem_cons.1 h
    rw [List.cons_append, quoted_cons hline hescape hquote, ih hds]
    cases quoted quote cs <;> rfl

lemma QuotedAlike.behind {q q' : Quoted} (h : QuotedAlike cs q q') (spelled ds : List Char) :
    QuotedAlike (spelled ++ cs) (q.behind ds spelled.length)
      (q'.behind (byteText ds) (byteText spelled).length) := by
  cases h with
  | @closed spelled' rest text heq =>
    subst heq
    have hclosed : QuotedAlike (spelled ++ (spelled' ++ rest)) (.closed (ds ++ text) _)
        (.closed (byteText (ds ++ text)) _) :=
      .closed (List.append_assoc spelled spelled' rest).symm
    rw [byteText_append, byteText_append, List.length_append, List.length_append, Nat.add_comm,
      Nat.add_comm (byteText spelled).length] at hclosed
    exact hclosed
  | unclosed => exact .unclosed
  | badEscape => exact .badEscape

lemma escape?_lt {d : Char} (h : escape? c = some d) : c.toNat < 0x80 ∧ d.toNat < 0x80 := by
  unfold escape? at h
  split_ifs at h with h1 h2 h3 h4 h5
  all_goals cases h
  · exact ⟨by rw [h1]; decide, by decide⟩
  · exact ⟨by rw [h2]; decide, by decide⟩
  · exact ⟨by rw [h3]; decide, by decide⟩
  · exact ⟨by rw [h4]; decide, by decide⟩
  · rcases h5 with rfl | rfl | rfl | rfl <;> exact ⟨by decide, by decide⟩

lemma quoted_quote {quote : Char} (hline : quote ≠ '\n') (hescape : quote ≠ '\\') (cs : List Char) :
    quoted quote (quote :: cs) = .closed [] 1 := by
  rw [quoted.eq_def]
  split <;> simp_all

/-- **A quoted string is read from its bytes.** -/
lemma quoted_byteText {quote : Char} (hquote : quote.toNat < 0x80) (cs : List Char) :
    QuotedAlike cs (quoted quote cs) (quoted quote (byteText cs)) := by
  fun_induction quoted quote cs with
  | case1 => exact .unclosed
  | case2 cs =>
    rw [byteText_cons_of_lt (by decide), quoted]
    exact .unclosed
  | case3 =>
    rw [byteText_singleton (by decide), quoted]
    exact .unclosed
  | case4 c cs d hescape ih =>
    obtain ⟨hc, hd⟩ := escape?_lt hescape
    rw [byteText_cons_of_lt (by decide), byteText_cons_of_lt hc, quoted_escape hescape,
      Quoted.prepend_eq_behind, Quoted.prepend_eq_behind]
    have hbehind := ih.behind ['\\', c] [d]
    rw [byteText_singleton hd, byteText_cons_of_lt (by decide), byteText_singleton hc] at hbehind
    exact hbehind
  | case5 c cs hescape =>
    rw [byteText_cons_of_lt (by decide)]
    rcases Nat.lt_or_ge c.toNat 0x80 with hlow | hhigh
    · rw [byteText_cons_of_lt hlow, quoted, hescape]
      exact .badEscape
    · obtain ⟨e, es, htext, hes⟩ := exists_byteText_singleton hhigh
      have hescape' : escape? e = none := by
        by_contra hsome
        obtain ⟨d, hd⟩ := Option.ne_none_iff_exists'.1 hsome
        exact absurd (escape?_lt hd).1 (Nat.not_lt.2 (hes e List.mem_cons_self))
      rw [byteText_cons, htext, List.cons_append, quoted, hescape']
      exact .badEscape
  | case6 cs hline hlast hescape =>
    have hescape : quote ≠ '\\' := by
      cases cs with
      | nil => exact fun h => hlast h rfl
      | cons d ds => exact fun h => hescape d ds h rfl
    rw [byteText_cons_of_lt hquote, quoted_quote hline hescape]
    have hclosed : QuotedAlike (quote :: cs) (.closed [] [quote].length)
        (.closed (byteText []) (byteText [quote]).length) := .closed rfl
    rwa [byteText_singleton hquote] at hclosed
  | case7 c cs hline hlast hescape hc ih =>
    have hescape : c ≠ '\\' := by
      cases cs with
      | nil => exact fun h => hlast h rfl
      | cons d ds => exact fun h => hescape d ds h rfl
    have hplain : ∀ e ∈ byteText [c], e ≠ '\n' ∧ e ≠ '\\' ∧ e ≠ quote := by
      intro e he
      rcases Nat.lt_or_ge c.toNat 0x80 with hlow | hhigh
      · rw [byteText_singleton hlow] at he
        rw [List.mem_singleton.1 he]
        exact ⟨hline, hescape, hc⟩
      · obtain ⟨d, ds, htext, hds⟩ := exists_byteText_singleton hhigh
        have hlarge := hds e (htext ▸ he)
        exact ⟨ne_of_toNat_lt hlarge (by decide), ne_of_toNat_lt hlarge (by decide),
          ne_of_toNat_lt hlarge hquote⟩
    rw [byteText_cons, quoted_append hplain, Quoted.prepend_eq_behind]
    exact ih.behind [c] [c]

/-! ## Pieces -/

/-- **The piece at the head of a text, and that at the head of its bytes**: pieces of one kind, behind which
the text and its bytes go on. The first character has one byte, and `cs` follows it. -/
inductive Alike (cs : List Char) : Piece → Piece → Prop
  | blank {more more' : ℕ} : (byteText cs).drop more' = byteText (cs.drop more) →
      Alike cs (.blank more) (.blank more')
  | token {kind : Token.Kind} {lexeme : List Char} {more more' : ℕ} :
      (byteText cs).drop more' = byteText (cs.drop more) →
      Alike cs (.token kind (String.ofList lexeme) more) (.token kind (String.ofList (byteText lexeme)) more')
  | fault {e e' : ParseError} : Alike cs (.fault e) (.fault e')

/-- What follows a part of the text follows the bytes of the part. -/
lemma drop_byteText {c : Char} {cs part rest : List Char} (hc : c.toNat < 0x80)
    (h : c :: cs = part ++ rest) (hpart : part ≠ []) :
    (byteText cs).drop ((byteText part).length - 1) = byteText (cs.drop (part.length - 1)) := by
  cases part with
  | nil => exact absurd rfl hpart
  | cons d part =>
    obtain ⟨rfl, hcs⟩ := List.cons.inj h
    obtain rfl : cs = part ++ rest := hcs
    rw [byteText_cons_of_lt hc, List.length_cons, List.length_cons, Nat.add_sub_cancel, Nat.add_sub_cancel,
      byteText_append, List.drop_left, List.drop_left]

/-- No piece of the language begins with a character of more than one byte. -/
lemma scan_of_le_toNat (h : 0x80 ≤ c.toNat) (p : Position) (cs : List Char) :
    scan p c cs = .fault ⟨p, .badCharacter c⟩ := by
  have hsymbol : Token.Kind.symbol? (c :: cs) = none := by
    refine List.find?_eq_none.2 ?_
    rintro ⟨spelling, kind⟩ hs hbegins
    have hplain := plain_spelling _ hs
    have hlow := spelling_all_lt _ hs
    cases spelling with
    | nil => cases hplain
    | cons d ds =>
      obtain ⟨after, hafter⟩ := List.isPrefixOf_iff_prefix.1 hbegins
      obtain rfl : d = c := (List.cons.inj hafter).1
      have hd := List.all_eq_true.1 hlow d List.mem_cons_self
      simp only [decide_eq_true_eq] at hd
      omega
  have hbracket : longBracket? (c :: cs) = none :=
    longBracket?_of_ne fun d hd => by
      rw [← Option.some_inj.1 hd]
      exact ne_of_toNat_lt h (by decide)
  have hpoint : c ≠ '.' := ne_of_toNat_lt h (by decide)
  simp [scan, narrow_isBlank c h, narrow_isNameStart c h, startsNumeral, narrow_isDecimal c h,
    ne_of_toNat_lt h, hbracket, symbolToken, hsymbol]

section

variable {p p' : Position} {level : ℕ} {body text : List Char}

/-- Pieces of the language begin with a character of one byte. -/
lemma toNat_lt_of_scan {piece : Piece} (hscan : scan p c cs = piece) (h : ∀ e, piece ≠ .fault e) :
    c.toNat < 0x80 := by
  by_contra hhigh
  exact h _ (hscan.symm.trans (scan_of_le_toNat (Nat.not_lt.1 hhigh) p cs))

lemma comment_line (h : longBracket? cs = none) :
    comment p cs = .blank ((cs.takeWhile (· ≠ '\n')).length + 1) := by
  rw [comment, h]

lemma comment_long (h : longBracket? cs = some (level, body)) (htext : longText? level body = some text) :
    comment p cs = .blank (longWidth level text + 1) := by
  simp only [comment, h, htext]

lemma comment_open (h : longBracket? cs = some (level, body)) (htext : longText? level body = none) :
    comment p cs = .fault ⟨p, .openLongBracket⟩ := by
  simp only [comment, h, htext]

lemma alike_comment : Alike ('-' :: cs) (comment p cs) (comment p' (byteText cs)) := by
  have hopen' := longBracket?_byteText cs
  rcases hopen : longBracket? cs with _ | ⟨level, body⟩
  · rw [hopen] at hopen'
    have hline : Bytewise (· ≠ '\n') :=
      ⟨true, fun c hc => decide_eq_true (ne_of_toNat_lt hc (by decide))⟩
    have hsplit : '-' :: '-' :: cs =
        '-' :: '-' :: cs.takeWhile (· ≠ '\n') ++ cs.dropWhile (· ≠ '\n') := by
      rw [List.cons_append, List.cons_append, List.takeWhile_append_dropWhile]
    have hdrop := drop_byteText (by decide) hsplit (List.cons_ne_nil _ _)
    rw [byteText_cons_of_lt (by decide), byteText_cons_of_lt (by decide), ← hline.takeWhile_byteText] at hdrop
    rw [comment_line hopen, comment_line hopen']
    exact .blank hdrop
  · rw [hopen] at hopen'
    have htext' := longText?_byteText level body
    rcases htext : longText? level body with _ | text
    · rw [htext] at htext'
      rw [comment_open hopen htext, comment_open hopen' htext']
      exact .fault
    · rw [htext] at htext'
      rw [comment_long hopen htext, comment_long hopen' htext']
      obtain ⟨rest, rfl⟩ := exists_longLiteral hopen htext
      have hsplit : '-' :: '-' :: (longLiteral level text ++ rest) =
          '-' :: '-' :: longLiteral level text ++ rest := rfl
      have hdrop := drop_byteText (by decide) hsplit (List.cons_ne_nil _ _)
      rw [byteText_cons_of_lt (c := '-') (by decide) (_ :: longLiteral level text),
        byteText_cons_of_lt (c := '-') (by decide) (longLiteral level text), byteText_longLiteral,
        List.length_cons, List.length_cons, List.length_cons, List.length_cons, length_longLiteral,
        length_longLiteral] at hdrop
      exact .blank hdrop

/-- A token of characters of one byte, at the head of a text and of its bytes. -/
lemma alike_of_forall_lt (kind : Token.Kind) {word rest : List Char} (hsplit : c :: cs = word ++ rest)
    (hne : word ≠ []) (hword : ∀ d ∈ word, d.toNat < 0x80) :
    Alike cs (.token kind (String.ofList word) (word.length - 1))
      (.token kind (String.ofList word) (word.length - 1)) := by
  have hc : c.toNat < 0x80 := by
    cases word with
    | nil => exact absurd rfl hne
    | cons d word => exact (List.cons.inj hsplit).1 ▸ hword d List.mem_cons_self
  have htoken : Alike cs (.token kind (String.ofList word) _)
      (.token kind (String.ofList (byteText word)) _) :=
    .token (drop_byteText hc hsplit hne)
  rwa [byteText_of_forall_lt hword] at htoken

lemma alike_numberToken (hc : c.toNat < 0x80) (h : startsNumeral c cs) :
    Alike cs (numberToken p (c :: cs)) (numberToken p' (c :: byteText cs)) := by
  have hnumeral := numeralText_byteText (c :: cs)
  rw [byteText_cons_of_lt hc] at hnumeral
  simp only [numberToken, hnumeral]
  cases Numeral.literal? (String.ofList (numeralText (c :: cs))) with
  | none => exact .fault
  | some value =>
    obtain ⟨rest, hrest⟩ := numeralText_isPrefix (c :: cs)
    obtain ⟨ds, hds, -⟩ := numeralText_cons h
    exact alike_of_forall_lt _ hrest.symm (hds ▸ List.cons_ne_nil _ _) (numeralText_lt _)

lemma alike_stringToken (hc : c.toNat < 0x80) :
    Alike cs (stringToken p c cs) (stringToken p' c (byteText cs)) := by
  have hread := quoted_byteText hc cs
  unfold stringToken
  generalize quoted c cs = q at hread
  generalize quoted c (byteText cs) = q' at hread
  cases hread with
  | @closed spelled rest text heq =>
    subst heq
    refine .token ?_
    rw [byteText_append, List.drop_left, List.drop_left]
  | unclosed => exact .fault
  | badEscape => exact .fault

lemma alike_symbolToken (hc : c.toNat < 0x80) :
    Alike cs (symbolToken p c cs) (symbolToken p' c (byteText cs)) := by
  have hsymbol := symbol?_byteText (c :: cs)
  rw [byteText_cons_of_lt hc] at hsymbol
  rw [symbolToken, symbolToken, hsymbol]
  rcases hfound : Token.Kind.symbol? (c :: cs) with _ | ⟨spelling, kind⟩
  · exact .fault
  · have hbegins := List.find?_some hfound
    obtain ⟨rest, hrest⟩ := List.isPrefixOf_iff_prefix.1 hbegins
    have hmem := mem_symbols_of_symbol? hfound
    refine alike_of_forall_lt kind hrest.symm ?_ fun d hd => ?_
    · rintro rfl
      cases plain_spelling _ hmem
    · simpa using List.all_eq_true.1 (spelling_all_lt _ hmem) d hd

/-- **The piece at the head of a text is read from its bytes.** -/
theorem alike_scan (hc : c.toNat < 0x80) : Alike cs (scan p c cs) (scan p' c (byteText cs)) := by
  have hbracket := longBracket?_byteText (c :: cs)
  rw [byteText_cons_of_lt hc] at hbracket
  unfold scan
  simp only [startsNumeral_byteText, hbracket, narrow_isNamePart.takeWhile_byteText,
    head?_byteText (show '-'.toNat < 0x80 by decide)]
  split_ifs with hblank hdash hname hnumeral hquote
  · exact .blank rfl
  · obtain ⟨rfl, hhead⟩ := hdash
    obtain ⟨rest, rfl⟩ := List.head?_eq_some_iff.1 hhead
    rw [byteText_cons_of_lt (by decide)]
    exact alike_comment
  · have hsplit : c :: cs = c :: cs.takeWhile isNamePart ++ cs.dropWhile isNamePart := by
      rw [List.cons_append, List.takeWhile_append_dropWhile]
    exact alike_of_forall_lt _ hsplit (List.cons_ne_nil _ _) (List.forall_mem_cons.2
      ⟨hc, fun d hd => narrow_isNamePart.lt (List.mem_takeWhile_imp hd)⟩)
  · exact alike_numberToken hc hnumeral
  · exact alike_stringToken hc
  · rcases hopen : longBracket? (c :: cs) with _ | ⟨level, body⟩
    · exact alike_symbolToken hc
    · simp only [Option.map_some, longText?_byteText]
      rcases htext : longText? level body with _ | text
      · exact .fault
      · obtain ⟨rest, hsplit⟩ := exists_longLiteral hopen htext
        have hdrop := drop_byteText hc hsplit (List.cons_ne_nil _ _)
        rw [byteText_longLiteral, length_longLiteral, length_longLiteral] at hdrop
        exact .token hdrop

end

/-- What a token says if its lexeme is made of bytes. -/
def decoded (t : Token) : Token.Kind × String := (t.kind, lossy t.lexeme.toList)

/-- What the tokens of a text say, with one more token in front. -/
lemma toOption_map_cons {α : Type} (f : Token → α) (t : Token) (result : Except ParseError (List Token)) :
    (result.map (t :: ·)).toOption.map (·.map f) = (result.toOption.map (·.map f)).map (f t :: ·) := by
  cases result <;> rfl

/-- **The tokens of a text are read from its bytes.**

**Proof sketch.** Induction on the pieces of the text. The piece at the head of the bytes is of the same kind,
and behind it the bytes go on with those of the rest of the text. -/
theorem tokensFrom_byteText (p p' : Position) (cs : List Char) :
    (tokensFrom p' (byteText cs)).toOption.map (·.map decoded) =
      (tokensFrom p cs).toOption.map (·.map Token.saying) := by
  fun_induction tokensFrom p cs generalizing p' with
  | case1 p =>
    rw [byteText_nil, tokensFrom_nil]
    have hempty : lossy [] = "" := lossy_byteText []
    simp only [Except.toOption, Option.map_some, List.map_cons, List.map_nil, decoded, Token.saying]
    rw [show "".toList = [] from rfl, hempty]
  | case2 p c cs more hscan ih =>
    have hc : c.toNat < 0x80 := toNat_lt_of_scan hscan fun e he => Piece.noConfusion he
    have halike : Alike cs (scan p c cs) (scan p' c (byteText cs)) := alike_scan hc
    rw [hscan] at halike
    rw [byteText_cons_of_lt hc]
    generalize hscan' : scan p' c (byteText cs) = piece at halike
    cases halike with
    | blank hdrop => rw [tokensFrom_blank hscan', hdrop, ih]
  | case3 p c cs kind lexeme more hscan ih =>
    have hc : c.toNat < 0x80 := toNat_lt_of_scan hscan fun e he => Piece.noConfusion he
    have halike : Alike cs (scan p c cs) (scan p' c (byteText cs)) := alike_scan hc
    rw [hscan] at halike
    rw [byteText_cons_of_lt hc]
    generalize hscan' : scan p' c (byteText cs) = piece at halike
    cases halike with
    | @token _ lexeme _ more' hdrop =>
      have hrest := ih (p'.advance (c :: (byteText cs).take more'))
      have hsaying : decoded ⟨kind, p', String.ofList (byteText lexeme)⟩ = (kind, String.ofList lexeme) := by
        rw [decoded, String.toList_ofList, lossy_byteText]
      rw [tokensFrom_token hscan', hdrop, toOption_map_cons, hrest, toOption_map_cons, hsaying]
      rfl
  | case4 p c cs error hscan =>
    rcases Nat.lt_or_ge c.toNat 0x80 with hlow | hhigh
    · have halike : Alike cs (scan p c cs) (scan p' c (byteText cs)) := alike_scan hlow
      rw [hscan] at halike
      rw [byteText_cons_of_lt hlow]
      generalize hscan' : scan p' c (byteText cs) = piece at halike
      cases halike with
      | fault =>
        rw [tokensFrom, hscan']
        rfl
    · obtain ⟨d, ds, htext, hds⟩ := exists_byteText_singleton hhigh
      rw [byteText_cons, htext, List.cons_append, tokensFrom,
        scan_of_le_toNat (hds d List.mem_cons_self)]
      rfl

/-- **What bytes say** that are read one by one, with each lexeme decoded: the kinds and lexemes of their
tokens, unless they are refused. -/
def readBytes (bytes : List UInt8) : Option (List (Token.Kind × String)) :=
  (tokenize (String.ofList (bytes.map byteChar))).toOption.map (·.map decoded)

/-- **Bytes are read as the text they encode**, and decoding the lexemes replaces nothing. -/
theorem readBytes_bytes (source : String) :
    readBytes (Text.bytes source) = (tokenize source).toOption.map (·.map Token.saying) := by
  rw [readBytes, tokenize, String.toList_ofList, Text.bytes_eq]
  exact tokensFrom_byteText .start .start source.toList

end ScriptCore.Lexer
