import ScriptCore.Proofs.PassStatements
import ScriptCore.Proofs.SourceTiling

set_option relaxedAutoImplicit false
set_option autoImplicit false

/-!
# The front end is total

Reading a source ends, with a program or with the reason for which the source is refused. The tokens are read one
at a time, and each of them takes a byte of the source at least, unless it is the end of the input. The
procedures of the parser move forward over the tokens and stop in front of the end of the input at the latest,
so none of them looks behind the last token; statements, expressions, items and parameters take a token at least,
so as many nested calls as tokens are left are enough. Whether a procedure has a result or refuses its input, it
leaves as many scopes and functions open as it has found.

## Main definitions

* `ScriptCore.Lexer.nextToken` — the next token of a text, and what is left of the text.
* `ScriptCore.SinglePass.Ends`, `ScriptCore.SinglePass.Settles` — how a procedure may end.
* `ScriptCore.SinglePass.ProceduresSettle` — all procedures of the parser.

## Main results

* `ScriptCore.Lexer.tokensFrom_eq` — the tokens of a text are read one at a time.
* `ScriptCore.Lexer.exists_of_nextToken` — a token takes a byte at least.
* `ScriptCore.SinglePass.procedures_settle` — the procedures settle.
* `ScriptCore.SinglePass.parse_total` — the front end is total.
-/

namespace ScriptCore

namespace Lexer

/-! ## One token at a time -/

/-- **The next token** of the text `cs` standing at `p`, with the place behind it and the text that is left.
Blanks and comments are passed over. -/
def nextToken (p : Position) : List Char → Except ParseError (Token × Position × List Char)
  | [] => .ok (⟨.eof, p, ""⟩, p, [])
  | c :: cs =>
    match scan p c cs with
    | .blank more => nextToken (p.advance (c :: cs.take more)) (cs.drop more)
    | .token kind lexeme more => .ok (⟨kind, p, lexeme⟩, p.advance (c :: cs.take more), cs.drop more)
    | .fault error => .error error
termination_by cs => cs.length
decreasing_by simp only [List.length_drop, List.length_cons]; omega

variable {p p' : Position} {c : Char} {cs rest : List Char} {t : Token}

/-- **The tokens of a text are read one at a time**, up to the end of the input. -/
lemma tokensFrom_eq (p : Position) (cs : List Char) :
    tokensFrom p cs = do
      let (t, p', rest) ← nextToken p cs
      if t.kind = .eof then return [t]
      return t :: (← tokensFrom p' rest) := by
  fun_induction nextToken p cs with
  | case1 p => exact tokensFrom_nil p
  | case2 p c cs more hscan ih => rw [tokensFrom_blank hscan, ih]
  | case3 p c cs kind lexeme more hscan =>
    rw [tokensFrom_token hscan]
    have hkind : kind ≠ .eof := (scan_begins hscan).ne_eof
    change _ = if kind = .eof then _ else _
    rw [if_neg hkind]
    rfl
  | case4 p c cs error hscan =>
    rw [tokensFrom, hscan]
    rfl

/-- **A token takes a byte at least**: what it is written with stands in front of the text that is left. -/
lemma exists_of_nextToken (h : nextToken p cs = .ok (t, p', rest)) (ht : t.kind ≠ .eof) :
    ∃ passed text, cs = passed ++ text ++ rest ∧ Spells t.kind t.lexeme text ∧
      (encoded rest).length < (encoded cs).length := by
  have hspelled : ∃ passed text, cs = passed ++ text ++ rest ∧ Spells t.kind t.lexeme text := by
    fun_induction nextToken p cs with
    | case1 p =>
      cases h
      exact absurd rfl ht
    | case2 p c cs more hscan ih =>
      obtain ⟨passed, text, hsplit, htext⟩ := ih h
      refine ⟨c :: cs.take more ++ passed, text, ?_, htext⟩
      rw [List.append_assoc, List.append_assoc, ← List.append_assoc passed, ← hsplit, List.cons_append,
        List.take_append_drop]
    | case3 p c cs kind lexeme more hscan =>
      cases h
      obtain ⟨text, rest, hsplit, hlength, htext⟩ := spells_of_scan hscan
      refine ⟨[], text, ?_, htext⟩
      rw [List.nil_append, ← List.drop_succ_cons, hsplit, ← hlength, List.drop_left]
    | case4 => cases h
  obtain ⟨passed, text, rfl, htext⟩ := hspelled
  have hpos := length_encoded_pos htext.ne_nil
  refine ⟨passed, text, rfl, htext, ?_⟩
  simp only [encoded_append, List.length_append]
  omega

/-! ## What the parser is given -/

/-- No text is refused for a numeral token without a value, or for its nesting. -/
lemma cause_of_fault {e : ParseError} (h : scan p c cs = .fault e) :
    e.cause ≠ .noValue ∧ e.cause ≠ .tooDeep := by
  unfold scan at h
  split at h
  · cases h
  split at h
  · unfold comment at h
    split at h
    · split at h <;> cases h
      simp
    · cases h
  split at h
  · cases h
  split at h
  · simp only [numberToken] at h
    split at h <;> cases h
    simp
  split at h
  · unfold stringToken at h
    split at h <;> cases h <;> simp
  split at h
  · split at h <;> cases h
    simp
  · unfold symbolToken at h
    split at h <;> cases h
    simp

lemma cause_of_tokensFrom {e : ParseError} (h : tokensFrom p cs = .error e) :
    e.cause ≠ .noValue ∧ e.cause ≠ .tooDeep := by
  fun_induction tokensFrom p cs with
  | case1 => cases h
  | case2 p c cs more hscan ih => exact ih h
  | case3 p c cs kind lexeme more hscan ih =>
    cases hrest : tokensFrom (p.advance (c :: cs.take more)) (cs.drop more) with
    | ok ts =>
      rw [hrest] at h
      cases h
    | error e' =>
      rw [hrest] at h
      cases h
      exact ih hrest
  | case4 p c cs error hscan =>
    cases h
    exact cause_of_fault hscan

end Lexer

/-- **The tokens of a source are complete.** -/
theorem tokenize_complete {source : String} {tokens : List Token} (h : tokenize source = .ok tokens) :
    SinglePass.Complete tokens := by
  obtain ⟨found, q, rfl, hfound⟩ := Lexer.tokensFrom_begins _ _ tokens h
  refine ⟨⟨found, _, rfl, rfl, fun t ht => ?_⟩, fun t ht hkind => ?_⟩
  · obtain ⟨c, cs, hbegins⟩ := hfound t ht
    exact hbegins.ne_eof
  rcases List.mem_append.1 ht with ht | ht
  · obtain ⟨c, cs, hbegins⟩ := hfound t ht
    obtain ⟨-, -, value, hvalue⟩ := hbegins.exists_value hkind
    exact hvalue ▸ Option.some_ne_none value
  · rw [List.mem_singleton.1 ht] at hkind
    cases hkind

namespace SinglePass

/-! ## How procedures end -/

/-- **How a procedure may end** that begins at `c`: with a result, at least `k` tokens further, or with the
reason for which the source is refused, which is neither a numeral without a value nor a nesting that is too
deep. In both cases it stands at a token, not in front of the place it began at, with as many scopes and
functions open. -/
inductive Ends {α : Type} (tokens : List Token) (k : ℕ) (c : Cursor) : Except Halt α × Cursor → Prop
  | result (a : α) {c' : Cursor} : c.index + k ≤ c'.index → c'.index < tokens.length →
      c.scopes.SameHeight c'.scopes → Ends tokens k c (.ok a, c')
  | refusal {e : ParseError} {c' : Cursor} : e.cause ≠ .noValue → e.cause ≠ .tooDeep →
      c.index ≤ c'.index → c'.index < tokens.length → c.scopes.SameHeight c'.scopes →
      Ends tokens k c (.error (.refused e), c')

/-- **A procedure settles** where at most `n` tokens are left, and takes `k` tokens at least if it has a
result. -/
def Settles {α : Type} (tokens : List Token) (n k : ℕ) (Q : Pass α) : Prop :=
  ∀ c, Left tokens n c.index → Ends tokens k c (Q tokens c)

variable {tokens : List Token} {n k : ℕ} {α β : Type}

/-- A procedure that follows a parser settles. -/
lemma Settles.of_follows {out : Scopes → β → α × Scopes} {P : Parser β} {Q : Pass α}
    (h : ∀ i s, Left tokens n i → Follows tokens (i + k) (out s) i s P Q) : Settles tokens n k Q := by
  rintro ⟨i, s⟩ hi
  cases h i s hi with
  | accepts _ hQ _ hlo hlt hheight =>
    rw [hQ]
    exact .result _ hlo hlt hheight
  | refuses _ hQ hvalue hdeep hj hlt hheight =>
    rw [hQ]
    exact .refusal hvalue hdeep hj hlt hheight

/-- A target of an assignment is looked at where it stands. -/
lemma checkAssignable_settles (e : BoundExpr) : Settles tokens n 0 (checkAssignable e) := by
  rintro ⟨i, s⟩ hi
  rw [checkAssignable]
  split
  · exact .result () le_rfl hi.lt (.refl _)
  · exact .refusal (by simp) (by simp) le_rfl hi.lt (.refl _)

/-- The end of the input is not taken. -/
lemma advance_settles (ht : Complete tokens) : Settles tokens n 0 advance := by
  rintro ⟨i, s⟩ hi
  have hlt : i < tokens.length := hi.lt
  by_cases hk : tokens[i].kind = .eof
  · -- the index stays where it is
    have hrun : advance tokens ⟨i, s⟩ = (.ok tokens[i], ⟨i, s⟩) := by
      rw [advance, bind_run, peek_run hlt, andThen_ok, if_pos hk]
      rfl
    rw [hrun]
    exact .result _ le_rfl hlt (.refl _)
  · rw [advance_run hlt hk]
    exact .result _ (Nat.le_succ i) (ht.succ_lt hlt hk) (.refl _)

/-- **The procedures settle** where at most `n` tokens are left, if they may nest `n` calls. -/
structure ProceduresSettle (tokens : List Token) (n : ℕ) : Prop where
  advance : Settles tokens n 0 advance
  -- statements
  block : Settles tokens n 0 (block (level n))
  body : Settles tokens n 0 (body (level n))
  stmt : Settles tokens n 1 (stmt (level n))
  localVars : ∀ pos, Settles tokens n 1 (localVars (level n) pos)
  localFunction : ∀ pos, Settles tokens n 1 (localFunction (level n) pos)
  functionDecl : ∀ pos, Settles tokens n 1 (functionDecl (level n) pos)
  conditional : ∀ pos, Settles tokens n 1 (conditional (level n) pos)
  repeatLoop : ∀ pos, Settles tokens n 1 (repeatLoop (level n) pos)
  forLoop : ∀ pos, Settles tokens n 1 (forLoop (level n) pos)
  exprStmt : ∀ pos, Settles tokens n 1 (exprStmt (level n) pos)
  checkAssignable : ∀ e, Settles tokens n 0 (checkAssignable e)
  -- expressions
  exprs : Settles tokens n 1 (level n).exprs
  expr : ∀ limit, Settles tokens n 1 ((level n).expr limit)
  simple : Settles tokens n 1 (simple (level n))
  primary : Settles tokens n 1 (primary (level n))
  suffixed : Settles tokens n 1 (suffixed (level n))
  args : Settles tokens n 1 (args (level n))
  table : Settles tokens n 1 (table (level n))
  item : Settles tokens n 1 (item (level n))
  -- functions
  function : ∀ pos receiver, Settles tokens n 1 (function (level n) pos receiver)
  signature : ∀ pos receiver, Settles tokens n 1 (signature (level n) pos receiver)
  params : Settles tokens n 1 (level n).params

/-- **All procedures settle** over the tokens of a source. -/
theorem procedures_settle (ht : Complete tokens) (n : ℕ) : ProceduresSettle tokens n := by
  have hg := level_follows ht (le_refl n) (le_refl n)
  exact {
    advance := advance_settles ht
    block := .of_follows fun _ _ hi => block_follows hg hi
    body := .of_follows fun _ _ hi => body_follows hg hi
    stmt := .of_follows fun _ _ hi => stmt_follows ht hg hi.succ
    localVars := fun pos => .of_follows fun _ _ hi => localVars_follows ht hg pos hi.succ
    localFunction := fun pos => .of_follows fun _ _ hi => localFunction_follows ht hg pos hi.succ
    functionDecl := fun pos => .of_follows fun _ _ hi => functionDecl_follows ht hg pos hi.succ
    conditional := fun pos => .of_follows fun _ _ hi => conditional_follows ht hg pos hi
    repeatLoop := fun pos => .of_follows fun _ _ hi => repeatLoop_follows ht hg pos hi
    forLoop := fun pos => .of_follows fun _ _ hi => forLoop_follows ht hg pos hi.succ
    exprStmt := fun pos => .of_follows fun _ _ hi => exprStmt_follows ht hg pos hi.succ
    checkAssignable := checkAssignable_settles
    exprs := .of_follows hg.exprs
    expr := fun limit => .of_follows (hg.expr limit)
    simple := .of_follows fun _ _ hi => simple_follows ht hg hi.succ
    primary := .of_follows fun _ _ hi => primary_follows ht hg hi.succ
    suffixed := .of_follows fun _ _ hi => suffixed_follows ht hg hi.succ
    args := .of_follows fun _ _ hi => args_follows ht hg hi.succ
    table := .of_follows fun _ _ hi => table_follows ht hg hi.succ
    item := .of_follows fun _ _ hi => item_follows ht hg hi.succ
    function := fun pos receiver => .of_follows fun _ _ hi => function_follows ht hg pos receiver hi.succ
    signature := fun pos receiver => .of_follows fun _ _ hi => signature_follows ht hg pos receiver hi.succ
    params := .of_follows hg.params }

/-! ## Whole sources -/

/-- **A source has a program or is refused**, and by binding in the same pass or afterwards alike. -/
lemma exists_of_parse (source : String) :
    (∃ program, parse source = .ok program ∧ parseProgram source = .ok program) ∨
      ∃ e, parse source = .error (.refused e) ∧ parseProgram source = .error e ∧
        e.cause ≠ .noValue ∧ e.cause ≠ .tooDeep := by
  rw [parse, parseProgram]
  cases htokens : tokenize source with
  | error e => exact .inr ⟨e, rfl, rfl, Lexer.cause_of_tokensFrom htokens⟩
  | ok tokens =>
    have ht := tokenize_complete htokens
    have hprogram := program_eq ht le_rfl
    change (∃ p, program tokens.length tokens = .ok p ∧ (parseChunk tokens).map Program.ofBlock = .ok p) ∨
      ∃ e, program tokens.length tokens = .error (.refused e) ∧
        (parseChunk tokens).map Program.ofBlock = .error e ∧ e.cause ≠ .noValue ∧ e.cause ≠ .tooDeep
    cases hchunk : parseChunk tokens with
    | ok body =>
      rw [hchunk] at hprogram
      exact .inl ⟨_, hprogram, rfl⟩
    | error e =>
      rw [hchunk] at hprogram
      exact .inr ⟨e, hprogram, rfl, cause_of_parseChunk ht hchunk⟩

/-- As many nested calls as there are tokens are enough. -/
lemma program_eq_parse {source : String} (h : tokenize source = .ok tokens) {depth : ℕ}
    (hdepth : tokens.length ≤ depth) : program depth tokens = parse source := by
  have ht := tokenize_complete h
  rw [parse, h, program_eq ht hdepth]
  exact (program_eq ht le_rfl).symm

open Lexer in
/-- **The front end is total.** The tokens of a text are read one at a time, and a token that is not the end of
the input takes a byte at least. The tokens of a source end with the only end of the input, and their numerals
have values. Over them all procedures of the parser end, without looking behind the last token: with a result,
where statements, expressions, items and parameters have taken a token at least, or with the reason for which
the source is refused, and in both cases with as many scopes and functions open as before. No further calls need
to be nested than there are tokens. So every source has a program or is refused, and never for a numeral without
a value. -/
theorem parse_total :
    (∀ p cs, tokensFrom p cs = do
      let (t, p', rest) ← nextToken p cs
      if t.kind = .eof then return [t]
      return t :: (← tokensFrom p' rest)) ∧
    (∀ p cs t p' rest, nextToken p cs = .ok (t, p', rest) → t.kind ≠ .eof →
      ∃ passed text, cs = passed ++ text ++ rest ∧ Lexer.Spells t.kind t.lexeme text ∧
        (encoded rest).length < (encoded cs).length) ∧
    (∀ source tokens, tokenize source = .ok tokens →
      Complete tokens ∧ (∀ n, ProceduresSettle tokens n) ∧
        ∀ depth, tokens.length ≤ depth → program depth tokens = parse source) ∧
    ∀ source, (∃ program, parse source = .ok program ∧ parseProgram source = .ok program) ∨
      ∃ e, parse source = .error (.refused e) ∧ parseProgram source = .error e ∧
        e.cause ≠ .noValue ∧ e.cause ≠ .tooDeep := by
  refine ⟨tokensFrom_eq, fun p cs t p' rest => exists_of_nextToken, fun source tokens h => ?_, exists_of_parse⟩
  have ht := tokenize_complete h
  exact ⟨ht, procedures_settle ht, fun depth => program_eq_parse h⟩

/-- The tokens of a call with a table that has a named element. -/
def tableTokens : List Token :=
  [⟨.ident, ⟨1, 1⟩, "f"⟩, ⟨.lBrace, ⟨1, 2⟩, "\x7b"⟩, ⟨.ident, ⟨1, 3⟩, "x"⟩, ⟨.assign, ⟨1, 4⟩, "="⟩,
    ⟨.number, ⟨1, 5⟩, "1"⟩, ⟨.rBrace, ⟨1, 6⟩, "\x7d"⟩, ⟨.eof, ⟨1, 7⟩, ""⟩]

open Lexer in
theorem parse_total_table :
    nextToken .start "f\x7bx=1\x7d".toList = .ok (⟨.ident, ⟨1, 1⟩, "f"⟩, ⟨1, 2⟩, "\x7bx=1\x7d".toList) ∧
      (∃ passed text, "f\x7bx=1\x7d".toList = passed ++ text ++ "\x7bx=1\x7d".toList ∧
        Lexer.Spells .ident "f" text ∧
        (encoded "\x7bx=1\x7d".toList).length < (encoded "f\x7bx=1\x7d".toList).length) ∧
      tokenize "f\x7bx=1\x7d" = .ok tableTokens ∧ Complete tableTokens ∧ (∀ n, ProceduresSettle tableTokens n) ∧
      program 7 tableTokens = parse "f\x7bx=1\x7d" := by
  have hnext : nextToken .start "f\x7bx=1\x7d".toList =
      .ok (⟨.ident, ⟨1, 1⟩, "f"⟩, ⟨1, 2⟩, "\x7bx=1\x7d".toList) := by cbv
  have htokens : tokenize "f\x7bx=1\x7d" = .ok tableTokens := by decide +kernel
  obtain ⟨hcomplete, hsettle, hprogram⟩ := parse_total.2.2.1 _ _ htokens
  exact ⟨hnext, parse_total.2.1 _ _ _ _ _ hnext (by decide), htokens, hcomplete, hsettle,
    hprogram 7 (by decide)⟩

end SinglePass

end ScriptCore
