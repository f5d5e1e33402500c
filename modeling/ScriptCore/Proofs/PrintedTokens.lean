import ScriptCore.Proofs.ByteReading

set_option relaxedAutoImplicit false
set_option autoImplicit false

/-!
# Printed tokens

The tokens of a text are written down again: a string token as a string in double quotes, any other token as
its lexeme, and between two tokens stands a filler, which begins with a blank and goes on with blanks and
comments. The text has the same tokens. In particular a string token carries any text, and so do long
brackets, unless their closing bracket comes too early.

## Main definitions

* `ScriptCore.Token.text`, `ScriptCore.Printed` — tokens as text.

## Main results

* `ScriptCore.Token.readAs_text` — a token is read back from its text.
* `ScriptCore.tokens_read_back` — tokens are read back from their text, strings carry any text, and all of
  this holds of the bytes of a text.
-/

namespace ScriptCore

open ScriptCore.Lexer

/-- The text of a token: a string token is written in double quotes, any other token as its lexeme. -/
def Token.text (t : Token) : List Char :=
  if t.kind = .string then quotedLiteral t.lexeme.toList else t.lexeme.toList

/-- **Tokens as text**, with a filler between any two of them. The end of the input may do without. -/
inductive Printed : List Token → List Char → Prop
  | single (t : Token) : Printed [t] t.text
  | last (t : Token) {eof : Token} : eof.kind = .eof → Printed [t, eof] t.text
  | cons (t : Token) {ts : List Token} {filler text : List Char} : Filler filler → Printed ts text →
      Printed (t :: ts) (t.text ++ (filler ++ text))

/-- **A token is read back from its text.** -/
theorem Token.readAs_text {t : Token} {c : Char} {cs : List Char} (h : Begins c cs t.kind t.lexeme) :
    ReadAs t.kind t.lexeme t.text := by
  obtain ⟨kind, pos, lexeme⟩ := t
  change Begins c cs kind lexeme at h
  change ReadAs kind lexeme (if kind = .string then _ else _)
  cases h with
  | word hstart =>
    rw [if_neg (ofWord_ne (by decide) (by decide) _)]
    simpa using readAs_word hstart cs
  | numeral hstart hvalue =>
    simpa using readAs_numeral hstart hvalue
  | string lexeme =>
    intro p rest _
    simpa using tokensFrom_quotedLiteral p lexeme.toList rest
  | symbol hsymbol =>
    have hmem := mem_symbols_of_symbol? hsymbol
    rw [if_neg]
    · simpa using readAs_symbol hmem
    · rintro rfl
      exact absurd (List.mem_map_of_mem hmem)
        (by decide : Token.Kind.string ∉ Token.Kind.symbols.map Prod.snd)

/-- The tokens of a printed text.

**Proof sketch.** Induction on the printed text. A token is read back because its text is empty or a blank
follows, the filler is passed over, and the rest of the tokens are read behind it. -/
lemma tokensFrom_printed {ts : List Token} {text : List Char} (h : Printed ts text) :
    ∀ {found : List Token} {q : Position}, ts = found ++ [⟨.eof, q, ""⟩] →
      (∀ t ∈ found, ∃ c cs, Begins c cs t.kind t.lexeme) →
      ∀ p, ∃ ts', tokensFrom p text = .ok ts' ∧ ts'.map Token.saying = ts.map Token.saying := by
  induction h with
  | single t =>
    intro found q heq _ p
    obtain ⟨-, rfl⟩ : found = [] ∧ t = ⟨.eof, q, ""⟩ := by
      cases found with
      | nil => simpa using heq
      | cons t' found => simp at heq
    exact ⟨_, tokensFrom_nil p, rfl⟩
  | @last t eof _ =>
    intro found q heq hfound p
    obtain ⟨rfl, rfl⟩ : found = [t] ∧ eof = ⟨.eof, q, ""⟩ := by
      rcases found with _ | ⟨t', _ | ⟨t'', found⟩⟩ <;> simp_all
    obtain ⟨c, cs, hbegins⟩ := hfound t List.mem_cons_self
    have hread := Token.readAs_text hbegins p [] parted_nil
    rw [List.append_nil, tokensFrom_nil] at hread
    exact ⟨_, hread, rfl⟩
  | @cons t ts filler text hfiller hprinted ih =>
    intro found q heq hfound p
    cases found with
    | nil =>
      obtain rfl : ts = [] := (List.cons.inj heq).2
      cases hprinted
    | cons t' found =>
      obtain ⟨rfl, rfl⟩ := List.cons.inj heq
      obtain ⟨c, cs, hbegins⟩ := hfound t List.mem_cons_self
      obtain ⟨b, gap, rfl, hblank, hgap⟩ := hfiller
      have hread := Token.readAs_text hbegins p (b :: gap ++ text) (parted_cons.2 hblank)
      rw [tokensFrom_gap (.blank hblank hgap)] at hread
      obtain ⟨ts', hrest, hsaying⟩ :=
        ih rfl (fun t' ht' => hfound t' (List.mem_cons_of_mem t ht')) _
      rw [hrest] at hread
      refine ⟨_, hread, ?_⟩
      rw [List.map_cons, hsaying]
      rfl

/-- **Printed tokens are read back.** Whatever fillers stand between the tokens of a source text, the text
they are written as has the same tokens. A string in double quotes carries any text, a string in long brackets
any text whose closing bracket does not come too early, wherever they stand. And all texts are read from their
bytes, with nothing replaced when the lexemes are decoded. -/
theorem tokens_read_back :
    (∀ source tokens text, tokenize source = .ok tokens → Printed tokens text →
      ∃ tokens', tokenize (String.ofList text) = .ok tokens' ∧
        tokens'.map Token.saying = tokens.map Token.saying) ∧
    (∀ p text rest, tokensFrom p (quotedLiteral text ++ rest) =
      (tokensFrom (p.advance (quotedLiteral text)) rest).map (⟨.string, p, String.ofList text⟩ :: ·)) ∧
    (∀ p level text rest, ClosesFirst level text → tokensFrom p (longLiteral level text ++ rest) =
      (tokensFrom (p.advance (longLiteral level text)) rest).map (⟨.string, p, String.ofList text⟩ :: ·)) ∧
    ∀ source, readBytes (Text.bytes source) = (tokenize source).toOption.map (·.map Token.saying) := by
  refine ⟨fun source tokens text h hprinted => ?_, tokensFrom_quotedLiteral,
    fun p level text rest hcloses => tokensFrom_longLiteral hcloses p rest, readBytes_bytes⟩
  obtain ⟨found, q, rfl, hfound⟩ := tokensFrom_begins _ _ tokens h
  rw [tokenize, String.toList_ofList]
  exact tokensFrom_printed hprinted rfl hfound .start

/-- The tokens of `a..[[b]]`. -/
def concatenation : List Token :=
  [⟨.ident, ⟨1, 1⟩, "a"⟩, ⟨.dotDot, ⟨1, 2⟩, ".."⟩, ⟨.string, ⟨1, 4⟩, "b"⟩, ⟨.eof, ⟨1, 9⟩, ""⟩]

/-- A closing bracket of level zero stands before the one of level one. -/
lemma closesFirst_brackets : ClosesFirst 1 [']', ']'] := by
  intro before after h
  have hlength := congrArg List.length h
  rcases before with _ | ⟨a, _ | ⟨b, _ | ⟨c, before⟩⟩⟩
  · simp [longCloser] at h
  · simp [longCloser] at h
  · simp [longCloser] at h ⊢
    exact ⟨h.1.symm, h.2.1.symm⟩
  · simp [longCloser] at hlength
    omega

theorem concatenation_read_back :
    tokenize "a..[[b]]" = .ok concatenation ∧
      Printed concatenation "a --[=[]]]=].. --\n\"b\"".toList ∧
      (∃ tokens', tokenize (String.ofList "a --[=[]]]=].. --\n\"b\"".toList) = .ok tokens' ∧
        tokens'.map Token.saying = concatenation.map Token.saying) ∧
      ClosesFirst 1 [']', ']'] ∧
      tokensFrom .start (longLiteral 1 [']', ']'] ++ []) =
        (tokensFrom (Position.start.advance (longLiteral 1 [']', ']'])) []).map
          (⟨.string, .start, String.ofList [']', ']']⟩ :: ·) := by
  have htokens : tokenize "a..[[b]]" = .ok concatenation := by cbv
  have hlong : Gap ('-' :: '-' :: (longLiteral 1 [']', ']'] ++ [])) := .long closesFirst_brackets .nil
  have hline : Gap ('-' :: '-' :: ([] ++ '\n' :: [])) := .line (by decide) rfl .nil
  have hprinted : Printed concatenation "a --[=[]]]=].. --\n\"b\"".toList :=
    .cons _ ⟨' ', _, rfl, rfl, hlong⟩ (.cons _ ⟨' ', _, rfl, rfl, hline⟩ (.last _ rfl))
  exact ⟨htokens, hprinted, tokens_read_back.1 _ _ _ htokens hprinted, closesFirst_brackets,
    tokens_read_back.2.2.1 .start 1 _ [] closesFirst_brackets⟩

end ScriptCore
