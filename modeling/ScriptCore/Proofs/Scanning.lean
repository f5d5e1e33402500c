import Mathlib
import ScriptCore.Source.Lexer

set_option relaxedAutoImplicit false
set_option autoImplicit false

/-!
# The pieces of a text

What the lexer reads at the head of a text, said once: a token is a word, a numeral, a string or a symbol, a
blank piece is passed over, and the tokens of a text are those found at the heads of its ends, closed by the
end of the input.

## Main definitions

* `ScriptCore.Token.saying` — kind and lexeme of a token.
* `ScriptCore.Lexer.Begins` — the tokens a text can begin with.

## Main results

* `ScriptCore.Lexer.scan_begins` — the token at the head of a text.
* `ScriptCore.Lexer.tokensFrom_begins` — the tokens of a text.
-/

namespace ScriptCore

/-- What a token says, without its place. -/
def Token.saying (t : Token) : Token.Kind × String := (t.kind, t.lexeme)

namespace Lexer

variable {p : Position} {c : Char} {cs : List Char} {kind : Token.Kind} {lexeme : String} {more : Nat}

/-- **The tokens a text can begin with**, by kind and lexeme. The text is `c :: cs`. -/
inductive Begins (c : Char) (cs : List Char) : Token.Kind → String → Prop
  | word : isNameStart c →
      Begins c cs (.ofWord (String.ofList (c :: cs.takeWhile isNamePart)))
        (String.ofList (c :: cs.takeWhile isNamePart))
  | numeral {value : Binary64} : startsNumeral c cs →
      Numeral.literal? (String.ofList (numeralText (c :: cs))) = some value →
      Begins c cs .number (String.ofList (numeralText (c :: cs)))
  | string (lexeme : String) : Begins c cs .string lexeme
  | symbol {spelling : List Char} {kind : Token.Kind} :
      Token.Kind.symbol? (c :: cs) = some (spelling, kind) → Begins c cs kind (String.ofList spelling)

/-- A comment is no token. -/
lemma comment_ne_token : comment p cs ≠ .token kind lexeme more := by
  intro h
  unfold comment at h
  split at h
  · split at h <;> cases h
  · cases h

/-- **The token at the head of a text** is a word, a numeral, a string or a symbol. -/
theorem scan_begins (h : scan p c cs = .token kind lexeme more) : Begins c cs kind lexeme := by
  unfold scan at h
  split at h
  · cases h
  split at h
  · exact absurd h comment_ne_token
  split at h
  · next hstart =>
    cases h
    exact .word hstart
  split at h
  · next hstart =>
    simp only [numberToken] at h
    split at h
    · next hvalue =>
      cases h
      exact .numeral hstart hvalue
    · cases h
  split at h
  · unfold stringToken at h
    split at h <;> cases h
    exact .string _
  split at h
  · split at h <;> cases h
    exact .string _
  · unfold symbolToken at h
    split at h
    · next hsymbol =>
      cases h
      exact .symbol hsymbol
    · cases h

/-- The kind of a word is a name or a keyword. -/
lemma ofWord_ne (hname : kind ≠ .ident) (hkeyword : kind ∉ Token.Kind.keywords.map Prod.snd)
    (word : String) : Token.Kind.ofWord word ≠ kind := by
  rw [Token.Kind.ofWord]
  cases hword : Token.Kind.keywords.lookup word with
  | none => exact hname.symm
  | some k =>
    obtain ⟨before, after, heq, -⟩ := List.lookup_eq_some_iff.1 hword
    rintro rfl
    exact hkeyword (heq ▸ List.mem_map_of_mem (List.mem_append_right _ List.mem_cons_self))

lemma mem_symbols_of_symbol? {spelling : List Char}
    (h : Token.Kind.symbol? cs = some (spelling, kind)) : (spelling, kind) ∈ Token.Kind.symbols :=
  List.mem_of_find?_eq_some h

/-- The end of the input is no token at the head of a text. -/
lemma Begins.ne_eof (h : Begins c cs kind lexeme) : kind ≠ .eof := by
  cases h with
  | word _ => exact ofWord_ne (by decide) (by decide) _
  | numeral _ _ => decide
  | string _ => decide
  | symbol hsymbol =>
    rintro rfl
    exact absurd (List.mem_map_of_mem (mem_symbols_of_symbol? hsymbol))
      (by decide : Token.Kind.eof ∉ Token.Kind.symbols.map Prod.snd)

/-- A number at the head of a text is a numeral, and it has a value. -/
lemma Begins.exists_value (h : Begins c cs kind lexeme) (hkind : kind = .number) :
    startsNumeral c cs ∧ lexeme = String.ofList (numeralText (c :: cs)) ∧
      ∃ value, Numeral.literal? lexeme = some value := by
  cases h with
  | word _ => exact absurd hkind (ofWord_ne (by decide) (by decide) _)
  | numeral hstart hvalue => exact ⟨hstart, rfl, _, hvalue⟩
  | string _ => cases hkind
  | symbol hsymbol =>
    subst hkind
    exact absurd (List.mem_map_of_mem (mem_symbols_of_symbol? hsymbol))
      (by decide : Token.Kind.number ∉ Token.Kind.symbols.map Prod.snd)

/-! ## The pieces one after the other -/

lemma tokensFrom_nil (p : Position) : tokensFrom p [] = .ok [⟨.eof, p, ""⟩] := by
  rw [tokensFrom]

/-- A blank piece is passed over. -/
lemma tokensFrom_blank (h : scan p c cs = .blank more) :
    tokensFrom p (c :: cs) = tokensFrom (p.advance (c :: cs.take more)) (cs.drop more) := by
  rw [tokensFrom, h]

/-- A token is put in front of the tokens behind it. -/
lemma tokensFrom_token (h : scan p c cs = .token kind lexeme more) :
    tokensFrom p (c :: cs) =
      (tokensFrom (p.advance (c :: cs.take more)) (cs.drop more)).map (⟨kind, p, lexeme⟩ :: ·) := by
  rw [tokensFrom, h]

/-- **The tokens of a text**: each of them begins a text, and the end of the input comes last. -/
theorem tokensFrom_begins (p : Position) (cs : List Char) :
    ∀ ts, tokensFrom p cs = .ok ts → ∃ found q, ts = found ++ [⟨.eof, q, ""⟩] ∧
      ∀ t ∈ found, ∃ c cs, Begins c cs t.kind t.lexeme := by
  fun_induction tokensFrom p cs with
  | case1 p =>
    intro ts h
    cases h
    exact ⟨[], p, rfl, nofun⟩
  | case2 p c cs more hscan ih => exact ih
  | case3 p c cs kind lexeme more hscan ih =>
    intro ts h
    cases hrest : tokensFrom (p.advance (c :: cs.take more)) (cs.drop more) with
    | error e => rw [hrest] at h; cases h
    | ok rest =>
      rw [hrest] at h
      cases h
      obtain ⟨found, q, rfl, hfound⟩ := ih rest hrest
      exact ⟨⟨kind, p, lexeme⟩ :: found, q, rfl,
        List.forall_mem_cons.2 ⟨⟨c, cs, scan_begins hscan⟩, hfound⟩⟩
  | case4 p c cs error hscan =>
    intro ts h
    cases h

end Lexer

end ScriptCore
