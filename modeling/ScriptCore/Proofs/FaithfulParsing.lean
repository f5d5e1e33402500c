import ScriptCore.Proofs.ParsedTrees
import ScriptCore.Proofs.Scanning

set_option relaxedAutoImplicit false
set_option autoImplicit false

/-!
# Parsing loses nothing

The tokens of a source text stand at places that go up, so no two of them stand at one place, and only the
last one is the end of the input. Hence the parser reads all of them: the program of a source text has the
contents of its tokens, in their order, and its nodes are well formed.

## Main definitions

* `ScriptCore.Position.Before` — the order of places.

## Main results

* `ScriptCore.Lexer.tokensFrom_placed` — the places of the tokens of a text.
* `ScriptCore.parseProgram_contents` — the contents of the program of a source text.
-/

namespace ScriptCore

/-! ## Places -/

namespace Position

/-- **One place stands before another one** in a text. -/
def Before (p q : Position) : Prop := p.line < q.line ∨ p.line = q.line ∧ p.column < q.column

variable {p q r : Position}

lemma Before.trans (h : p.Before q) (h' : q.Before r) : p.Before r := by
  unfold Before at *
  omega

lemma Before.ne (h : p.Before q) : p ≠ q := by
  rintro rfl
  unfold Before at h
  omega

lemma before_after (p : Position) (c : Char) : p.Before (p.after c) := by
  unfold after
  split
  · exact .inl (Nat.lt_succ_self _)
  · exact .inr ⟨rfl, Nat.lt_add_of_pos_right c.utf8Size_pos⟩

/-- A place stands before the one behind some characters. -/
lemma before_advance (p : Position) (c : Char) (cs : List Char) : p.Before (p.advance (c :: cs)) := by
  induction cs generalizing p c with
  | nil => exact p.before_after c
  | cons d cs ih => exact (p.before_after c).trans (ih (p.after c) d)

end Position

namespace Lexer

/-- **The tokens of a text stand one behind the other.** -/
theorem tokensFrom_placed (p : Position) (cs : List Char) :
    ∀ ts, tokensFrom p cs = .ok ts → (∀ t ∈ ts, p = t.pos ∨ p.Before t.pos) ∧
      ts.Pairwise (fun t t' => t.pos.Before t'.pos) := by
  fun_induction tokensFrom p cs with
  | case1 p =>
    intro ts h
    cases h
    exact ⟨List.forall_mem_singleton.2 (.inl rfl), List.pairwise_singleton _ _⟩
  | case2 p c cs more hscan ih =>
    intro ts h
    obtain ⟨hplaces, hrest⟩ := ih ts h
    refine ⟨fun t ht => .inr ?_, hrest⟩
    rcases hplaces t ht with heq | hbefore
    · exact heq ▸ p.before_advance c _
    · exact (p.before_advance c _).trans hbefore
  | case3 p c cs kind lexeme more hscan ih =>
    intro ts h
    cases hrest : tokensFrom (p.advance (c :: cs.take more)) (cs.drop more) with
    | error e => rw [hrest] at h; cases h
    | ok rest =>
      rw [hrest] at h
      cases h
      obtain ⟨hplaces, hpairs⟩ := ih rest hrest
      have hbehind : ∀ t ∈ rest, p.Before t.pos := by
        intro t ht
        rcases hplaces t ht with heq | hbefore
        · exact heq ▸ p.before_advance c _
        · exact (p.before_advance c _).trans hbefore
      exact ⟨List.forall_mem_cons.2 ⟨.inl rfl, fun t ht => .inr (hbehind t ht)⟩,
        List.pairwise_cons.2 ⟨hbehind, hpairs⟩⟩
  | case4 p c cs error hscan =>
    intro ts h
    cases h

/-- Only the last token of a text is the end of the input. -/
lemma ne_eof_of_mem_dropLast {p : Position} {cs : List Char} {ts : List Token}
    (h : tokensFrom p cs = .ok ts) : ∀ t ∈ ts.dropLast, t.kind ≠ .eof := by
  obtain ⟨found, q, rfl, hfound⟩ := tokensFrom_begins p cs ts h
  rw [List.dropLast_concat]
  intro t ht
  obtain ⟨c, cs, hbegins⟩ := hfound t ht
  exact hbegins.ne_eof

end Lexer

open ScriptCore.Parser (front)

/-- Behind the end of the input nothing is left. -/
lemma contents_eq_nil {tokens rest : List Token} (heof : ∀ t ∈ tokens.dropLast, t.kind ≠ .eof)
    (hrest : rest <:+ tokens) (hfront : (front rest).kind = .eof) :
    rest.flatMap Token.contents = [] := by
  obtain ⟨before, rfl⟩ := hrest
  match rest with
  | [] => rfl
  | [t] =>
    have hcontents : t.contents = [] := by
      rw [Token.contents, show t.kind = .eof from hfront]
      rfl
    rw [List.flatMap_singleton, hcontents]
  | t :: t' :: rest =>
    refine absurd hfront (heof t ?_)
    rw [List.dropLast_append_cons]
    exact List.mem_append_right _ List.mem_cons_self

/-- **Parsing loses, invents and reorders nothing**: the program of a source text has the contents of its
tokens, in their order, and each of its nodes is well formed.

**Proof sketch.** With its names put back, the program is the parsed tree. The parser reads its contents off
the tokens up to the end of the input, which is the last of them, and the tree is grammatical. -/
theorem parseProgram_contents {source : String} {p : Program} (h : parseProgram source = .ok p) :
    (∃ tokens, tokenize source = .ok tokens ∧ tokens.flatMap Token.contents = p.contents) ∧
      ∀ n ∈ (Node.block p.body).nodes, n.WellFormed := by
  obtain ⟨tokens, body, htokens, hbody, rfl⟩ := parseProgram_eq_ok h
  obtain ⟨hgrammatical, rest, hread, hfront⟩ := parseChunk_faithful hbody
  obtain ⟨-, hpairs⟩ := Lexer.tokensFrom_placed _ _ tokens htokens
  have heof := Lexer.ne_eof_of_mem_dropLast htokens
  constructor
  · refine ⟨tokens, htokens, ?_⟩
    have hnodup : (tokens.map Token.pos).Nodup :=
      List.pairwise_map.2 (hpairs.imp Position.Before.ne)
    rw [hread.2 hnodup, contents_eq_nil heof hread.1 hfront, List.append_nil, Program.contents,
      Program.ofBlock_rename]
  · intro n hn
    set L := (Program.ofBlock body).locals with hL
    have hmem : n.rename (nameOf L) (binderOf L) ∈ (Node.block body).nodes := by
      have hbody := congrArg Node.block (Program.ofBlock_rename body)
      rw [← hbody]
      change _ ∈ ((Node.block _).rename _ _).nodes
      rw [Node.nodes_rename]
      exact List.mem_map_of_mem hn
    exact (Node.wellFormed_rename _ _ n).1 (hgrammatical _ hmem).wellFormed

/-- The program of `function o:add(n) self.v -= -n end`. -/
def methodStatement : Program where
  body := .mk ⟨1, 1⟩ [.functionDecl (.member (.name (.globalVar "o") ⟨1, 10⟩) "add" ⟨1, 1⟩)
    (.mk [0, 1] false (.mk ⟨1, 19⟩ [.compound .sub (.member (.name (.localVar 0) ⟨1, 19⟩) "v" ⟨1, 23⟩)
      (.unary .neg (.name (.localVar 1) ⟨1, 30⟩) ⟨1, 29⟩) ⟨1, 19⟩]) ⟨1, 1⟩) ⟨1, 1⟩]
  locals := #[⟨"self", ⟨1, 1⟩, 1⟩, ⟨"n", ⟨1, 16⟩, 1⟩]

/-- The parameter `self` of the method is none of its contents. -/
example : methodStatement.contents = [.name "o", .name "add", .name "n", .name "self", .name "v",
    .operator .minusAssign, .operator .minus, .name "n"] := by
  cbv

theorem methodStatement_contents :
    parseProgram "function o:add(n) self.v -= -n end" = .ok methodStatement ∧
      (∃ tokens, tokenize "function o:add(n) self.v -= -n end" = .ok tokens ∧
        tokens.flatMap Token.contents = methodStatement.contents) ∧
      ∀ n ∈ (Node.block methodStatement.body).nodes, n.WellFormed := by
  have hparse : parseProgram "function o:add(n) self.v -= -n end" = .ok methodStatement := by cbv
  exact ⟨hparse, parseProgram_contents hparse⟩

end ScriptCore
