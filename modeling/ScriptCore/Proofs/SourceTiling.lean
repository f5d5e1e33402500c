import ScriptCore.Proofs.FaithfulParsing
import ScriptCore.Proofs.ByteReading

set_option relaxedAutoImplicit false
set_option autoImplicit false

/-!
# The tokens tile the source

The tokens of a text cover ranges of its bytes, one behind the other. Between them stand blanks and complete
comments, and so they do in front of the first token; the last gap may also end with a comment that the text
ends. The place of a token is that of its first byte, counted in the bytes of the text in front of it; where a
text is refused, the place is counted in the same way at some byte.

## Main definitions

* `ScriptCore.Position.behind` — the place behind some bytes, by counting line feeds.
* `ScriptCore.Lexer.Spells` — the characters a token is written with.
* `ScriptCore.Lexer.LastGap` — what can stand behind the last token.
* `ScriptCore.Lexer.Extent`, `ScriptCore.Lexer.Tiles` — ranges of bytes, and how tokens cover a text.

## Main results

* `ScriptCore.Position.behind_encoded` — places move over characters as they move over their bytes.
* `ScriptCore.Lexer.spells_of_scan` — the token at the head of a text is written there.
* `ScriptCore.Lexer.exists_gap` — blanks and comments are passed over as far as possible.
* `ScriptCore.tokenize_tiles` — the tokens of a source tile its bytes, and a refusal stands at a byte.
-/

namespace ScriptCore

/-! ## Places of bytes -/

namespace Position

/-- **The place behind some bytes**: one line for each line feed among them, and one column for each byte
behind the last line feed. -/
def behind (bytes : List UInt8) : Position :=
  ⟨1 + bytes.count 10, 1 + (bytes.reverse.takeWhile (· ≠ 10)).length⟩

/-- A line feed starts a new line. -/
lemma behind_line (bytes : List UInt8) : behind (bytes ++ [10]) = ⟨(behind bytes).line + 1, 1⟩ := by
  simp [behind, Nat.add_assoc]

/-- Any other byte takes one column. -/
lemma behind_byte {b : UInt8} (h : b ≠ 10) (bytes : List UInt8) :
    behind (bytes ++ [b]) = (behind bytes).nextByte := by
  simp [behind, nextByte, h, Nat.add_assoc]

/-- Bytes without a line feed stand on one line. -/
lemma behind_append {bs : List UInt8} (h : ∀ b ∈ bs, b ≠ 10) (bytes : List UInt8) :
    behind (bytes ++ bs) = ⟨(behind bytes).line, (behind bytes).column + bs.length⟩ := by
  induction bs generalizing bytes with
  | nil => rw [List.append_nil]; rfl
  | cons b bs ih =>
    obtain ⟨hb, hbs⟩ := List.forall_mem_cons.1 h
    rw [← List.singleton_append, ← List.append_assoc, ih hbs, behind_byte hb, nextByte,
      List.singleton_append, List.length_cons, Nat.add_assoc, Nat.add_comm 1]

end Position

namespace Lexer

/-- The bytes of some characters. -/
def encoded (cs : List Char) : List UInt8 := cs.flatMap String.utf8EncodeChar

lemma encoded_append (cs ds : List Char) : encoded (cs ++ ds) = encoded cs ++ encoded ds :=
  List.flatMap_append

/-- No byte of another character is a line feed. -/
lemma ne_ten_of_mem_utf8EncodeChar {c : Char} (hc : c ≠ '\n') :
    ∀ b ∈ String.utf8EncodeChar c, b ≠ 10 := by
  rintro b hb rfl
  have hmem : byteChar 10 ∈ byteText [c] := by
    rw [byteText, List.flatMap_singleton]
    exact List.mem_map_of_mem hb
  rcases Nat.lt_or_ge c.toNat 0x80 with hlow | hhigh
  · rw [byteText_singleton hlow, List.mem_singleton] at hmem
    exact hc hmem.symm
  · obtain ⟨d, ds, htext, hds⟩ := exists_byteText_singleton hhigh
    exact absurd (hds _ (htext ▸ hmem)) (by decide)

end Lexer

open Lexer

/-- **Places move over characters as they move over their bytes.** -/
lemma Position.behind_encoded (bytes : List UInt8) (cs : List Char) :
    behind (bytes ++ encoded cs) = (behind bytes).advance cs := by
  induction cs generalizing bytes with
  | nil => rw [encoded, List.flatMap_nil, List.append_nil, advance_nil]
  | cons c cs ih =>
    have hc : behind (bytes ++ String.utf8EncodeChar c) = (behind bytes).after c := by
      by_cases hline : c = '\n'
      · subst hline
        exact behind_line bytes
      · rw [behind_append (ne_ten_of_mem_utf8EncodeChar hline), after, if_neg hline,
          String.length_utf8EncodeChar]
    rw [encoded, List.flatMap_cons, ← List.append_assoc, advance_cons, ← hc]
    exact ih _

namespace Lexer

variable {p : Position} {c : Char} {cs rest text : List Char} {kind : Token.Kind} {lexeme : String} {more : ℕ}

/-! ## The characters of a token -/

/-- **The characters a token is written with**: a string stands in quotes that close it at the end, or in long
brackets that do; any other token is its lexeme. -/
inductive Spells : Token.Kind → String → List Char → Prop
  | lexeme {kind : Token.Kind} {text : List Char} : kind ≠ .string → kind ≠ .eof → text ≠ [] →
      Spells kind (String.ofList text) text
  | quoted {quote : Char} {text cs : List Char} : quote = '"' ∨ quote = '\'' →
      quoted quote cs = .closed text cs.length → Spells .string (String.ofList text) (quote :: cs)
  | long {level : ℕ} {text : List Char} : ClosesFirst level text →
      Spells .string (String.ofList text) (longLiteral level text)

lemma Spells.ne_nil (h : Spells kind lexeme text) : text ≠ [] := by
  cases h with
  | lexeme _ _ hne => exact hne
  | quoted _ _ => exact List.cons_ne_nil _ _
  | long _ => exact List.cons_ne_nil _ _

/-- A string that closes behind its first character closes without it. -/
lemma Quoted.exists_of_prepend {q : Quoted} {width n : ℕ} (h : q.prepend c n = .closed text width) :
    ∃ text' width', q = .closed text' width' ∧ text = c :: text' ∧ width = width' + n := by
  cases q <;> cases h
  exact ⟨_, _, rfl, rfl, rfl⟩

/-- A bad escape behind the first character is one without it. -/
lemma Quoted.exists_of_prepend_badEscape {q : Quoted} {d : Char} {before n : ℕ}
    (h : q.prepend c n = .badEscape before d) :
    ∃ before', q = .badEscape before' d ∧ before = before' + n := by
  cases q <;> cases h
  exact ⟨_, rfl, rfl⟩

/-- A character that is looked at alone is no backslash. -/
lemma ne_backslash (hlast : c = '\\' → cs = [] → False)
    (hescape : ∀ d ds, c = '\\' → cs = d :: ds → False) : c ≠ '\\' := by
  cases cs with
  | nil => exact fun h => hlast h rfl
  | cons d ds => exact fun h => hescape d ds h rfl

/-- A quoted string is read up to its closing quote, whatever follows. -/
lemma exists_of_quoted {quote : Char} {width : ℕ} (h : quoted quote cs = .closed text width) :
    ∃ spelled rest, cs = spelled ++ rest ∧ spelled.length = width ∧
      quoted quote spelled = .closed text spelled.length := by
  fun_induction quoted quote cs generalizing text width with
  | case1 => cases h
  | case2 => cases h
  | case3 => cases h
  | case4 c cs d hescape ih =>
    obtain ⟨text, width, hrest, rfl, rfl⟩ := Quoted.exists_of_prepend h
    obtain ⟨spelled, rest, rfl, rfl, hread⟩ := ih hrest
    refine ⟨'\\' :: c :: spelled, rest, rfl, rfl, ?_⟩
    rw [quoted_escape hescape, hread, Quoted.prepend, List.length_cons, List.length_cons]
  | case5 => cases h
  | case6 cs hline hlast hescape =>
    cases h
    exact ⟨[quote], cs, rfl, rfl, quoted_quote hline (ne_backslash hlast hescape) []⟩
  | case7 c cs hline hlast hescape hc ih =>
    obtain ⟨text, width, hrest, rfl, rfl⟩ := Quoted.exists_of_prepend h
    obtain ⟨spelled, rest, rfl, rfl, hread⟩ := ih hrest
    refine ⟨c :: spelled, rest, rfl, rfl, ?_⟩
    rw [quoted_cons hline (ne_backslash hlast hescape) hc, hread, Quoted.prepend, List.length_cons]

/-- The text in long brackets ends at the first closing bracket. -/
lemma closesFirst_of_longText? {level : ℕ} {text : List Char} (h : longText? level cs = some text) :
    ClosesFirst level text := by
  induction cs generalizing text with
  | nil => cases h
  | cons c cs ih =>
    rw [longText?] at h
    split at h
    · cases h
      intro before after heq
      have hlength := congrArg List.length heq
      simp only [List.length_append, List.length_nil] at hlength
      exact List.eq_nil_of_length_eq_zero (by omega)
    · next hbegins =>
      obtain ⟨text, htext, rfl⟩ := Option.map_eq_some_iff.1 h
      obtain ⟨rest, rfl⟩ := exists_of_longText? htext
      intro before after heq
      cases before with
      | nil =>
        refine absurd (List.isPrefixOf_iff_prefix.2 ⟨after ++ rest, ?_⟩) hbegins
        have hrest := congrArg (· ++ rest) heq
        simpa using hrest.symm
      | cons b before =>
        obtain ⟨rfl, hbehind⟩ := List.cons.inj heq
        rw [ih htext before after hbehind]

/-- **The token at the head of a text is written there.** -/
theorem spells_of_scan (h : scan p c cs = .token kind lexeme more) :
    ∃ text rest, c :: cs = text ++ rest ∧ text.length = more + 1 ∧ Spells kind lexeme text := by
  unfold scan at h
  split at h
  · cases h
  split at h
  · exact absurd h comment_ne_token
  split at h
  · cases h
    refine ⟨c :: cs.takeWhile isNamePart, cs.dropWhile isNamePart, ?_, rfl, ?_⟩
    · rw [List.cons_append, List.takeWhile_append_dropWhile]
    · exact .lexeme (ofWord_ne (by decide) (by decide) _) (ofWord_ne (by decide) (by decide) _)
        (List.cons_ne_nil _ _)
  split at h
  · next hstart =>
    obtain ⟨rest, hrest⟩ := numeralText_isPrefix (c :: cs)
    obtain ⟨ds, hds, -⟩ := numeralText_cons hstart
    simp only [numberToken, hds] at h
    split at h <;> cases h
    exact ⟨c :: ds, rest, hds ▸ hrest.symm, rfl, .lexeme (by decide) (by decide) (List.cons_ne_nil _ _)⟩
  split at h
  · next hquote =>
    unfold stringToken at h
    split at h <;> cases h
    next hread =>
    obtain ⟨spelled, rest, rfl, rfl, hspelled⟩ := exists_of_quoted hread
    exact ⟨c :: spelled, rest, rfl, rfl, .quoted hquote hspelled⟩
  split at h
  · next hopen =>
    split at h <;> cases h
    next htext =>
    obtain ⟨rest, hrest⟩ := exists_longLiteral hopen htext
    refine ⟨_, rest, hrest, ?_, .long (closesFirst_of_longText? htext)⟩
    rw [length_longLiteral, longWidth]
    omega
  · unfold symbolToken at h
    split at h <;> cases h
    next spelling hsymbol =>
    have hbegins := List.find?_some hsymbol
    obtain ⟨rest, hrest⟩ := List.isPrefixOf_iff_prefix.1 hbegins
    have hmem := mem_symbols_of_symbol? hsymbol
    have hkind {k : Token.Kind} (hk : k ∉ Token.Kind.symbols.map Prod.snd) : kind ≠ k := by
      rintro rfl
      exact hk (List.mem_map_of_mem hmem)
    have hne : spelling ≠ [] := by
      rintro rfl
      cases plain_spelling _ hmem
    refine ⟨spelling, rest, hrest.symm, ?_, .lexeme (hkind (by decide)) (hkind (by decide)) hne⟩
    have := List.length_pos_iff.2 hne
    omega

/-- A bad escape stands behind what is read of the string. -/
lemma exists_of_badEscape {quote d : Char} {before : ℕ} (h : quoted quote cs = .badEscape before d) :
    ∃ spelled rest, cs = spelled ++ '\\' :: d :: rest ∧ spelled.length = before ∧ escape? d = none := by
  fun_induction quoted quote cs generalizing before with
  | case1 => cases h
  | case2 => cases h
  | case3 => cases h
  | case4 c cs e hescape ih =>
    obtain ⟨before, hrest, rfl⟩ := Quoted.exists_of_prepend_badEscape h
    obtain ⟨spelled, rest, rfl, rfl, hd⟩ := ih hrest
    exact ⟨'\\' :: c :: spelled, rest, rfl, rfl, hd⟩
  | case5 c cs hescape =>
    cases h
    exact ⟨[], cs, rfl, rfl, hescape⟩
  | case6 => cases h
  | case7 c cs hline hlast hescape hc ih =>
    obtain ⟨before, hrest, rfl⟩ := Quoted.exists_of_prepend_badEscape h
    obtain ⟨spelled, rest, rfl, rfl, hd⟩ := ih hrest
    exact ⟨c :: spelled, rest, rfl, rfl, hd⟩

lemma comment_fault {e : ParseError} (h : comment p cs = .fault e) : e.pos = p := by
  unfold comment at h
  split at h
  · split at h <;> cases h
    rfl
  · cases h

/-- **A refusal stands at the head of the text**, or one byte into a character that is no line feed. -/
lemma pos_of_fault {e : ParseError} (h : scan p c cs = .fault e) :
    e.pos = p ∨ ∃ read d rest, c :: cs = read ++ d :: rest ∧ d ≠ '\n' ∧
      e.pos = (p.advance read).nextByte := by
  unfold scan at h
  split at h
  · cases h
  split at h
  · exact .inl (comment_fault h)
  split at h
  · cases h
  split at h
  · simp only [numberToken] at h
    split at h <;> cases h
    exact .inl rfl
  split at h
  · unfold stringToken at h
    split at h <;> cases h
    · exact .inl rfl
    · next d hread =>
      obtain ⟨spelled, rest, rfl, rfl, hescape⟩ := exists_of_badEscape hread
      refine .inr ⟨c :: (spelled ++ ['\\']), d, rest, by simp, ?_, ?_⟩
      · rintro rfl
        cases hescape
      · rw [List.take_append, List.take_of_length_le (Nat.le_succ _)]
        simp
  split at h
  · split at h <;> cases h
    exact .inl rfl
  · unfold symbolToken at h
    split at h <;> cases h
    exact .inl rfl

/-! ## Gaps -/

/-- A comment that ends with its line. -/
def LineComment (cs : List Char) : Prop :=
  ∃ text, cs = '-' :: '-' :: text ∧ '\n' ∉ text ∧ longBracket? text = none

/-- **What can stand behind the last token**: a gap, and then a comment that the text ends, if there is one. -/
def LastGap (cs : List Char) : Prop :=
  ∃ gap rest, cs = gap ++ rest ∧ Gap gap ∧ (rest = [] ∨ LineComment rest)

lemma scan_ne_blank (hblank : ¬ isBlank c) (hdash : ¬ (c = '-' ∧ cs.head? = some '-')) :
    scan p c cs ≠ .blank more := by
  intro h
  rw [scan, if_neg hblank, if_neg hdash] at h
  split at h
  · cases h
  split at h
  · simp only [numberToken] at h
    split at h <;> cases h
  split at h
  · unfold stringToken at h
    split at h <;> cases h
  split at h
  · split at h <;> cases h
  · unfold symbolToken at h
    split at h <;> cases h

/-- A long bracket that opens in a line opens in the text that begins with the line. -/
lemma longBracket?_of_append (h : longBracket? (text ++ rest) = none) : longBracket? text = none := by
  by_contra hopen
  obtain ⟨⟨level, body⟩, hopen⟩ := Option.ne_none_iff_exists'.1 hopen
  have hlevel : ∀ c ∈ List.replicate level '=', decide (c = '=') = true := by simp
  rw [eq_of_longBracket? hopen, List.cons_append, List.append_assoc, longBracket?,
    List.dropWhile_append_of_pos hlevel] at h
  simp at h

/-- The line at the head of a text, in which no long bracket opens. -/
lemma exists_line (h : longBracket? cs = none) :
    ∃ text, '\n' ∉ text ∧ longBracket? text = none ∧ (cs = text ∨ ∃ rest, cs = text ++ '\n' :: rest) := by
  have hline : '\n' ∉ cs.takeWhile (· ≠ '\n') := fun hmem => by
    simpa using List.mem_takeWhile_imp hmem
  have hsplit : cs.takeWhile (· ≠ '\n') ++ cs.dropWhile (· ≠ '\n') = cs := List.takeWhile_append_dropWhile
  have hend := List.head?_dropWhile_not (· ≠ '\n') cs
  generalize cs.takeWhile (· ≠ '\n') = text at hline hsplit
  generalize cs.dropWhile (· ≠ '\n') = tail at hsplit hend
  subst hsplit
  refine ⟨text, hline, longBracket?_of_append h, ?_⟩
  cases tail with
  | nil => exact .inl (List.append_nil text)
  | cons c rest =>
    obtain rfl : c = '\n' := by simpa using hend
    exact .inr ⟨rest, rfl⟩

/-- **Blanks and comments are passed over as far as possible.** -/
theorem exists_gap (cs : List Char) :
    ∃ gap rest, cs = gap ++ rest ∧ Gap gap ∧
      (LineComment rest ∨ ∀ p c ds more, rest = c :: ds → scan p c ds ≠ .blank more) := by
  induction hlength : cs.length using Nat.strong_induction_on generalizing cs with
  | _ n ih =>
  subst hlength
  cases cs with
  | nil => exact ⟨[], [], rfl, .nil, .inr nofun⟩
  | cons c cs =>
    by_cases hblank : isBlank c
    · obtain ⟨gap, rest, rfl, hgap, hrest⟩ := ih _ (Nat.lt_succ_self _) cs rfl
      exact ⟨c :: gap, rest, rfl, .blank hblank hgap, hrest⟩
    by_cases hdash : c = '-' ∧ cs.head? = some '-'
    · obtain ⟨rfl, hhead⟩ := hdash
      obtain ⟨ds, rfl⟩ := List.head?_eq_some_iff.1 hhead
      rcases hopen : longBracket? ds with _ | ⟨level, body⟩
      · obtain ⟨text, hline, htext, rfl | ⟨rest, rfl⟩⟩ := exists_line hopen
        · exact ⟨[], _, rfl, .nil, .inl ⟨ds, rfl, hline, htext⟩⟩
        · obtain ⟨gap, rest, rfl, hgap, hrest⟩ :=
            ih rest.length (by simp only [List.length_cons, List.length_append]; omega) rest rfl
          exact ⟨_, rest, by simp, .line hline htext hgap, hrest⟩
      · rcases htext : longText? level body with _ | text
        · refine ⟨[], _, rfl, .nil, .inr ?_⟩
          rintro p c cs more heq
          obtain ⟨rfl, rfl⟩ := List.cons.inj heq
          rw [scan_comment, comment_open hopen htext]
          exact Piece.noConfusion
        · obtain ⟨rest, rfl⟩ := exists_longLiteral hopen htext
          obtain ⟨gap, rest, rfl, hgap, hrest⟩ :=
            ih rest.length (by simp only [List.length_cons, List.length_append]; omega) rest rfl
          exact ⟨_, rest, by simp, .long (closesFirst_of_longText? htext) hgap, hrest⟩
    · refine ⟨[], c :: cs, rfl, .nil, .inr ?_⟩
      rintro p c ds more heq
      obtain ⟨rfl, rfl⟩ := List.cons.inj heq
      exact scan_ne_blank hblank hdash

/-- A comment at the end of a text is passed over. -/
lemma LineComment.tokensFrom (h : LineComment cs) (p : Position) :
    tokensFrom p cs = .ok [⟨.eof, p.advance cs, ""⟩] := by
  obtain ⟨text, rfl, hline, hopen⟩ := h
  have htake : text.takeWhile (· ≠ '\n') = text :=
    List.takeWhile_eq_self_iff.2 (by simpa using fun c hc => ne_of_mem_of_not_mem hc hline)
  have hscan : scan p '-' ('-' :: text) = .blank ('-' :: text).length := by
    rw [scan_comment, comment_line hopen, htake]
    rfl
  rw [tokensFrom_blank hscan, List.take_length, List.drop_length, tokensFrom_nil]

/-! ## Tilings -/

/-- **A range of bytes**, from `start` up to `stop` without it. -/
structure Extent where
  start : ℕ
  stop : ℕ
deriving DecidableEq, Repr

/-- **Tokens tile the bytes** from a byte on: each covers a range that spells it, stands at the place of its
first byte, and has only blanks and complete comments in front of it, up to the token before. The end of the
input comes last, behind all bytes. -/
inductive Tiles (bytes : List UInt8) : ℕ → List (Token × Extent) → Prop
  | last {n : ℕ} {gap : List Char} : n ≤ bytes.length → bytes.drop n = encoded gap → LastGap gap →
      Tiles bytes n [(⟨.eof, .behind bytes, ""⟩, ⟨bytes.length, bytes.length⟩)]
  | token {n start stop : ℕ} {kind : Token.Kind} {lexeme : String} {gap text : List Char}
      {tiles : List (Token × Extent)} : n ≤ start → start < stop → stop ≤ bytes.length →
      bytes.extract n start = encoded gap → Gap gap →
      bytes.extract start stop = encoded text → Spells kind lexeme text →
      Tiles bytes stop tiles →
      Tiles bytes n ((⟨kind, .behind (bytes.take start), lexeme⟩, ⟨start, stop⟩) :: tiles)

/-- The ranges of a tiling lie behind its first byte, one behind the other. -/
lemma Tiles.ordered {bytes : List UInt8} {n : ℕ} {tiles : List (Token × Extent)} (h : Tiles bytes n tiles) :
    (∀ tile ∈ tiles, n ≤ tile.2.start) ∧ tiles.Pairwise (fun a b => a.2.stop ≤ b.2.start) := by
  induction h with
  | last hn _ _ => exact ⟨List.forall_mem_singleton.2 hn, List.pairwise_singleton _ _⟩
  | token hstart hstop _ _ _ _ _ _ ih =>
    refine ⟨List.forall_mem_cons.2 ⟨hstart, fun tile htile => ?_⟩, List.pairwise_cons.2 ih⟩
    have := ih.1 tile htile
    omega

/-- The end of the input stands behind all bytes. -/
lemma Tiles.getLast?_eq {bytes : List UInt8} {n : ℕ} {tiles : List (Token × Extent)}
    (h : Tiles bytes n tiles) : (tiles.map Prod.fst).getLast? = some ⟨.eof, .behind bytes, ""⟩ := by
  induction h with
  | last _ _ _ => rfl
  | token _ _ _ _ _ _ _ _ ih => rw [List.map_cons, List.getLast?_cons, ih, Option.getD_some]

/-- What the bytes `bytes` from the byte `n` on are read as: tokens that tile them, or a refusal at one of
their places. -/
def Tiled (bytes : List UInt8) (n : ℕ) : Except ParseError (List Token) → Prop
  | .ok tokens => ∃ tiles, tiles.map Prod.fst = tokens ∧ Tiles bytes n tiles
  | .error e => ∃ m ≤ bytes.length, e.pos = .behind (bytes.take m)

lemma length_encoded_pos (h : cs ≠ []) : 0 < (encoded cs).length := by
  cases cs with
  | nil => exact absurd rfl h
  | cons c cs =>
    rw [encoded, List.flatMap_cons, List.length_append, String.length_utf8EncodeChar]
    have := c.utf8Size_pos
    omega

/-- The bytes between two cuts. -/
lemma extract_append {α : Type} (as bs cs : List α) :
    (as ++ (bs ++ cs)).extract as.length (as ++ bs).length = bs := by
  simp [List.extract]

lemma advance_behind (passed ds : List Char) :
    (Position.behind (encoded passed)).advance ds = .behind (encoded (passed ++ ds)) := by
  rw [encoded_append, Position.behind_encoded]

/-- A gap at the end is the last tile. -/
lemma tiled_last {gap : List Char} (passed : List Char) (hgap : LastGap gap) :
    Tiled (encoded (passed ++ gap)) (encoded passed).length
      (.ok [⟨.eof, .behind (encoded (passed ++ gap)), ""⟩]) := by
  refine ⟨_, rfl, .last ?_ ?_ hgap⟩
  · rw [encoded_append]
    exact (List.prefix_append _ _).length_le
  · rw [encoded_append, List.drop_left]

/-- A token behind a gap is one more tile in front. -/
lemma Tiled.token {gap : List Char} {result : Except ParseError (List Token)} (passed : List Char)
    (hgap : Gap gap) (htext : Spells kind lexeme text)
    (h : Tiled (encoded (passed ++ gap ++ text ++ rest)) (encoded (passed ++ gap ++ text)).length result) :
    Tiled (encoded (passed ++ gap ++ text ++ rest)) (encoded passed).length
      (result.map (⟨kind, .behind (encoded (passed ++ gap)), lexeme⟩ :: ·)) := by
  cases result with
  | error e => exact h
  | ok tokens =>
    obtain ⟨tiles, rfl, htiles⟩ := h
    have htake : (encoded (passed ++ gap ++ text ++ rest)).take (encoded (passed ++ gap)).length =
        encoded (passed ++ gap) := by
      rw [List.append_assoc, encoded_append (passed ++ gap), List.take_left]
    have hbefore : (encoded (passed ++ gap ++ text ++ rest)).extract (encoded passed).length
        (encoded (passed ++ gap)).length = encoded gap := by
      rw [List.append_assoc, encoded_append (passed ++ gap), encoded_append passed, List.append_assoc]
      exact extract_append _ _ _
    have hspelled : (encoded (passed ++ gap ++ text ++ rest)).extract (encoded (passed ++ gap)).length
        (encoded (passed ++ gap ++ text)).length = encoded text := by
      rw [encoded_append (passed ++ gap ++ text), encoded_append (passed ++ gap) text, List.append_assoc]
      exact extract_append _ _ _
    have hpos := length_encoded_pos htext.ne_nil
    have htile := htiles.token ?_ ?_ ?_ hbefore hgap hspelled htext
    · rw [htake] at htile
      exact ⟨_, rfl, htile⟩
    all_goals
      simp only [encoded_append, List.length_append]
      omega

/-- A refusal stands at a byte. -/
lemma tiled_fault {e : ParseError} {passed : List Char} (h : scan (.behind (encoded passed)) c cs = .fault e)
    (n : ℕ) : Tiled (encoded (passed ++ c :: cs)) n (.error e) := by
  rcases pos_of_fault h with hpos | ⟨read, d, rest, hsplit, hd, hpos⟩
  · refine ⟨(encoded passed).length, ?_, ?_⟩
    · rw [encoded_append]
      exact (List.prefix_append _ _).length_le
    · rw [hpos, encoded_append, List.take_left]
  · -- the place is that behind the first byte of `d`
    obtain ⟨b, bs, hbytes⟩ := List.exists_cons_of_ne_nil (String.utf8EncodeChar_ne_nil (c := d))
    have hb : b ≠ 10 := ne_ten_of_mem_utf8EncodeChar hd b (hbytes ▸ List.mem_cons_self)
    have hsource : encoded (passed ++ c :: cs) = encoded (passed ++ read) ++ [b] ++ (bs ++ encoded rest) := by
      rw [hsplit, ← List.append_assoc, encoded_append, encoded, encoded, List.flatMap_cons, hbytes]
      simp [encoded]
    refine ⟨(encoded (passed ++ read) ++ [b]).length, ?_, ?_⟩
    · rw [hsource]
      exact (List.prefix_append _ _).length_le
    · rw [hsource, List.take_left, Position.behind_byte hb, hpos, advance_behind]

/-- **The tokens of a text tile its bytes.**

**Proof sketch.** Induction on the length of the text. A gap is passed over as far as possible. Behind it stands
nothing, a comment that the text ends, a token, behind which the induction goes on, or a refusal. -/
theorem tiled_tokensFrom (passed cs : List Char) :
    Tiled (encoded (passed ++ cs)) (encoded passed).length (tokensFrom (.behind (encoded passed)) cs) := by
  induction hlength : cs.length using Nat.strong_induction_on generalizing passed cs with
  | _ n ih =>
  subst hlength
  obtain ⟨gap, rest, rfl, hgap, hrest⟩ := exists_gap cs
  rw [tokensFrom_gap hgap, advance_behind]
  rcases hrest with hline | hrest
  · rw [hline.tokensFrom, advance_behind, List.append_assoc]
    exact tiled_last passed ⟨gap, rest, rfl, hgap, .inr hline⟩
  rcases rest with _ | ⟨c, cs⟩
  · rw [tokensFrom_nil, List.append_nil]
    exact tiled_last passed ⟨gap, [], (List.append_nil gap).symm, hgap, .inl rfl⟩
  cases hscan : scan (.behind (encoded (passed ++ gap))) c cs with
  | blank more => exact absurd hscan (hrest _ _ _ _ rfl)
  | fault e =>
    rw [tokensFrom, hscan, ← List.append_assoc]
    exact tiled_fault hscan _
  | token kind lexeme more =>
    obtain ⟨text, rest, hsplit, hlength, htext⟩ := spells_of_scan hscan
    have htake : c :: cs.take more = text := by
      rw [← List.take_succ_cons, hsplit, ← hlength, List.take_left]
    have hdrop : cs.drop more = rest := by
      rw [← List.drop_succ_cons, hsplit, ← hlength, List.drop_left]
    rw [tokensFrom_token hscan, htake, hdrop, advance_behind, hsplit, ← List.append_assoc, ← List.append_assoc]
    refine Tiled.token passed hgap htext (ih rest.length ?_ _ rest rfl)
    rw [hsplit, List.length_append, List.length_append]
    omega

end Lexer

/-- **The tokens of a source tile it.** If a source is read, its tokens cover ranges of its bytes that are
disjoint and in order. In front of the first token, between the tokens and behind the last one stand only
blanks and complete comments. Each token but the end of the input spells the bytes it covers, of which there is
one at least, and its place is found by counting the line feeds in front of its first byte, and the bytes behind
the last of them. The end of the input is the last token and no other one, and stands at the end of the source
by the same rule. If a source is refused, the place of the refusal is that of one of its bytes, or of its end,
by the same rule. -/
theorem tokenize_tiles :
    (∀ source tokens, tokenize source = .ok tokens → ∃ tiles, tiles.map Prod.fst = tokens ∧
      Tiles (Text.bytes source) 0 tiles ∧
      tiles.Pairwise (fun a b => a.2.stop ≤ b.2.start) ∧
      (∀ t ∈ tokens.dropLast, t.kind ≠ .eof) ∧
      tokens.getLast? = some ⟨.eof, .behind (Text.bytes source), ""⟩) ∧
    ∀ source e, tokenize source = .error e →
      ∃ n ≤ (Text.bytes source).length, e.pos = .behind ((Text.bytes source).take n) := by
  have htiled (source : String) : Tiled (Text.bytes source) 0 (tokenize source) := by
    rw [Text.bytes_eq, tokenize]
    exact tiled_tokensFrom [] source.toList
  refine ⟨fun source tokens h => ?_, fun source e h => ?_⟩
  · have hsource := htiled source
    rw [h] at hsource
    obtain ⟨tiles, hfst, htiles⟩ := hsource
    refine ⟨tiles, hfst, htiles, htiles.ordered.2, ne_eof_of_mem_dropLast h, ?_⟩
    rw [← hfst]
    exact htiles.getLast?_eq
  · have hsource := htiled source
    rw [h] at hsource
    exact hsource

/-- The tokens of a name, a comment of two lines, a string of two lines and a comment. -/
def linesTokens : List Token :=
  [⟨.ident, ⟨1, 1⟩, "x"⟩, ⟨.string, ⟨2, 3⟩, "\n"⟩, ⟨.eof, ⟨3, 4⟩, ""⟩]

theorem linesTokens_tile :
    tokenize "x--[[\n]]\"\\\n\"--" = .ok linesTokens ∧
      (∃ tiles, tiles.map Prod.fst = linesTokens ∧
        Tiles (Text.bytes "x--[[\n]]\"\\\n\"--") 0 tiles ∧
        tiles.Pairwise (fun a b => a.2.stop ≤ b.2.start) ∧
        (∀ t ∈ linesTokens.dropLast, t.kind ≠ .eof) ∧
        linesTokens.getLast? = some ⟨.eof, .behind (Text.bytes "x--[[\n]]\"\\\n\"--"), ""⟩) ∧
      tokenize "\n'\\é" = .error ⟨⟨2, 4⟩, .badEscape 'é'⟩ ∧
      ∃ n ≤ (Text.bytes "\n'\\é").length, ⟨2, 4⟩ = Position.behind ((Text.bytes "\n'\\é").take n) := by
  have htokens : tokenize "x--[[\n]]\"\\\n\"--" = .ok linesTokens := by cbv
  have hrefused : tokenize "\n'\\é" = .error ⟨⟨2, 4⟩, .badEscape 'é'⟩ := by cbv
  exact ⟨htokens, tokenize_tiles.1 _ _ htokens, hrefused, tokenize_tiles.2 _ _ hrefused⟩

end ScriptCore
