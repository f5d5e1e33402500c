import ScriptCore.Proofs.Renaming
import ScriptCore.Proofs.Scanning

set_option relaxedAutoImplicit false
set_option autoImplicit false

/-!
# The names of parsed trees

A name of a tree is the lexeme of a name token, and such a lexeme has at least one character. The
statement is carried through the parser by one relation between a parser and its results, which
all combinators respect. The levels of the grammar have it one after the other.

## Main definitions

* `ScriptCore.Token.WellNamed`, `ScriptCore.Node.Named` — tokens and trees without empty names.
* `ScriptCore.Parser.Yields` — a parser gives results of a kind, and leaves well-named tokens.
* `ScriptCore.Grammar.Named` — a grammar whose parsers give trees without empty names.

## Main results

* `ScriptCore.Lexer.tokensFrom_wellNamed` — the tokens of a text.
* `ScriptCore.Grammar.level_named`, `ScriptCore.parseChunk_named` — the trees of tokens.
* `ScriptCore.Program.globalName_ne_empty` — the globals of a program.
-/

namespace ScriptCore

/-- A token that has a name if it stands for one. -/
def Token.WellNamed (t : Token) : Prop := t.kind = .ident → t.lexeme ≠ ""

namespace Lexer

/-- A token at the head of a text is well named. -/
lemma Begins.wellNamed {t : Token} {c : Char} {cs : List Char} (h : Begins c cs t.kind t.lexeme) :
    t.WellNamed := by
  obtain ⟨kind, pos, lexeme⟩ := t
  change Begins c cs kind lexeme at h
  intro hkind
  change kind = .ident at hkind
  change lexeme ≠ ""
  cases h with
  | word _ =>
    -- a word has at least its first character
    exact fun hempty => List.cons_ne_nil _ _ (String.ofList_eq_empty_iff.1 hempty)
  | numeral _ _ => cases hkind
  | string _ => cases hkind
  | symbol hsymbol =>
    subst hkind
    exact absurd (List.mem_map_of_mem (mem_symbols_of_symbol? hsymbol))
      (by decide : Token.Kind.ident ∉ Token.Kind.symbols.map Prod.snd)

/-- **The tokens of a text are well named.** -/
theorem tokensFrom_wellNamed (p : Position) (cs : List Char) :
    ∀ ts, tokensFrom p cs = .ok ts → ∀ t ∈ ts, t.WellNamed := by
  intro ts h t ht
  obtain ⟨found, q, rfl, hfound⟩ := tokensFrom_begins p cs ts h
  rcases List.mem_append.1 ht with ht | ht
  · obtain ⟨c, cs, hbegins⟩ := hfound t ht
    exact hbegins.wellNamed
  · rw [List.mem_singleton.1 ht]
    exact nofun

end Lexer

/-! ## Trees without empty names -/

/-- A tree none of whose names is empty. -/
def Node.Named (n : Node String Binder) : Prop :=
  ∀ name pos, Node.expr (.name name pos) ∈ n.nodes → name ≠ ""

/-- A tree has no empty names if its root is not one and its parts have none. -/
lemma Node.Named.of_children {n : Node String Binder}
    (hname : ∀ name pos, n = .expr (.name name pos) → name ≠ "")
    (h : ∀ c ∈ n.children, c.Named) : n.Named := by
  intro name pos hmem
  rw [nodes_eq, List.mem_cons] at hmem
  rcases hmem with heq | hmem
  · exact hname name pos heq.symm
  · obtain ⟨c, hc, hmem⟩ := List.mem_flatMap.1 hmem
    exact h c hc name pos hmem

/-- An expression without empty names. -/
abbrev Expr.Named (e : RawExpr) : Prop := (Node.expr e).Named

/-- A statement without empty names. -/
abbrev Stmt.Named (s : RawStmt) : Prop := (Node.stmt s).Named

/-- A function literal without empty names. -/
abbrev Function.Named (f : RawFunction) : Prop := (Node.expr (.function f)).Named

/-- The rest of a conditional without empty names. -/
abbrev Alternative.Named (a : Alternative String Binder) : Prop := ∀ c ∈ a.children, c.Named

/-! ## Parsers -/

namespace Parser

variable {α γ : Type}

/-- **Every result of a parser is of a kind**, and the tokens it leaves are well named, if those
it starts from are. -/
def Yields (P : α → Prop) (m : Parser α) : Prop :=
  ∀ ts a rest, (∀ t ∈ ts, t.WellNamed) → m ts = .ok (a, rest) → P a ∧ ∀ t ∈ rest, t.WellNamed

lemma Yields.pure {P : α → Prop} {a : α} (h : P a) : Yields P (pure a) := by
  intro ts a' rest hts hrun
  cases hrun
  exact ⟨h, hts⟩

/-- One parser behind the other. -/
lemma Yields.bind {P : α → Prop} {Q : γ → Prop} {m : Parser α} {f : α → Parser γ}
    (hm : Yields P m) (hf : ∀ a, P a → Yields Q (f a)) : Yields Q (m >>= f) := by
  intro ts c rest hts hrun
  change (m ts).bind (fun x => f x.1 x.2) = _ at hrun
  cases hfirst : m ts with
  | error e => rw [hfirst] at hrun; cases hrun
  | ok x =>
    rw [hfirst] at hrun
    obtain ⟨ha, hmid⟩ := hm ts x.1 x.2 hts hfirst
    exact hf x.1 ha x.2 c rest hmid hrun

lemma Yields.ite {P : α → Prop} {c : Prop} [Decidable c] {m n : Parser α} (hm : Yields P m)
    (hn : Yields P n) : Yields P (if c then m else n) := by
  split
  · exact hm
  · exact hn

lemma yields_failAt {P : α → Prop} (pos : Position) (cause : ParseError.Cause) :
    Yields P (failAt pos cause) := fun _ _ _ _ hrun => nomatch hrun

/-- The token a parser stands at is well named, also behind the last one. -/
lemma wellNamed_headD {ts : List Token} (hts : ∀ t ∈ ts, t.WellNamed) :
    (ts.headD ⟨.eof, .start, ""⟩).WellNamed := by
  cases ts with
  | nil => exact nofun
  | cons t ts => exact hts t List.mem_cons_self

lemma yields_peek : Yields Token.WellNamed peek := by
  intro ts a rest hts hrun
  cases hrun
  exact ⟨wellNamed_headD hts, hts⟩

lemma yields_advance : Yields Token.WellNamed advance := by
  intro ts a rest hts hrun
  cases hrun
  exact ⟨wellNamed_headD hts, fun t ht => hts t (List.mem_of_mem_tail ht)⟩

lemma yields_kind : Yields (fun _ => True) kind :=
  yields_peek.bind fun _ _ => .pure trivial

lemma yields_here : Yields (fun _ => True) here :=
  yields_peek.bind fun _ _ => .pure trivial

lemma yields_nextIs (k : Token.Kind) : Yields (fun _ => True) (nextIs k) := by
  intro ts a rest hts hrun
  cases hrun
  exact ⟨trivial, hts⟩

lemma yields_eat (k : Token.Kind) : Yields (fun _ => True) (eat k) :=
  yields_kind.bind fun _ _ =>
    .ite (yields_advance.bind fun _ _ => .pure trivial) (.pure trivial)

/-- A token that is expected is of its kind. -/
lemma yields_expect (k : Token.Kind) :
    Yields (fun t => t.kind = k ∧ t.WellNamed) (expect k) := by
  intro ts a rest hts hrun
  change (if (ts.headD ⟨.eof, .start, ""⟩).kind = k then advance
    else failAt _ _ : Parser Token) ts = _ at hrun
  split at hrun
  · rename_i hkind
    cases hrun
    exact ⟨⟨hkind, wellNamed_headD hts⟩, fun t ht => hts t (List.mem_of_mem_tail ht)⟩
  · cases hrun

lemma yields_binder : Yields (fun b => b.name ≠ "") binder :=
  (yields_expect .ident).bind fun _ ht => .pure (ht.2 ht.1)

lemma yields_ident : Yields (fun _ => True) ident :=
  (yields_expect .ident).bind fun _ _ => .pure trivial

end Parser

/-! ## The grammar -/

/-- **A grammar whose parsers give trees without empty names**, from trees without empty names. -/
structure Grammar.Named (g : Grammar) : Prop where
  stmts : g.stmts.Yields (∀ s ∈ ·, s.Named)
  alternative : g.alternative.Yields Alternative.Named
  expr : ∀ limit, (g.expr limit).Yields Expr.Named
  operators : ∀ limit left, left.Named → (g.operators limit left).Yields Expr.Named
  suffixes : ∀ e, e.Named → (g.suffixes e).Yields Expr.Named
  exprs : g.exprs.Yields (∀ e ∈ ·, e.Named)
  moreExprs : g.moreExprs.Yields (∀ e ∈ ·, e.Named)
  moreTargets : g.moreTargets.Yields (∀ e ∈ ·, e.Named)
  moreNames : g.moreNames.Yields fun _ => True
  path : ∀ pos e, e.Named → (g.path pos e).Yields fun x => x.1.Named
  params : g.params.Yields fun _ => True
  items : g.items.Yields (∀ i ∈ ·, (Node.item i).Named)

namespace Grammar

open ScriptCore.Parser

variable {g : Grammar}

/-! ### Expressions -/

lemma primary_named (hg : g.Named) : (primary g).Yields Expr.Named := by
  refine yields_peek.bind fun t ht => ?_
  split
  · rename_i hkind
    refine yields_advance.bind fun _ _ => .pure (.of_children ?_ nofun)
    intro name pos heq
    cases heq
    exact ht hkind
  · refine yields_advance.bind fun _ _ => (hg.expr 0).bind fun inner hinner => ?_
    refine (yields_expect _).bind fun _ _ => .pure (.of_children nofun ?_)
    simpa [Node.children, Expr.children] using hinner
  · exact yields_failAt _ _

lemma table_named (hg : g.Named) : (table g).Yields Expr.Named := by
  refine (yields_expect _).bind fun _ _ => hg.items.bind fun items hitems => ?_
  refine (yields_expect _).bind fun _ _ => .pure (.of_children nofun ?_)
  simpa [Node.children, Expr.children] using hitems

lemma args_named (hg : g.Named) : (args g).Yields (∀ e ∈ ·, e.Named) := by
  refine yields_peek.bind fun t _ => ?_
  split
  · refine yields_advance.bind fun _ _ => .pure ?_
    rw [List.forall_mem_singleton]
    exact .of_children nofun nofun
  · refine (table_named hg).bind fun e he => .pure ?_
    rw [List.forall_mem_singleton]
    exact he
  · refine (yields_expect _).bind fun _ _ => (yields_eat _).bind fun _ _ => ?_
    refine .ite (.pure nofun) (hg.exprs.bind fun es hes => ?_)
    exact (yields_expect _).bind fun _ _ => .pure hes

lemma suffixesRule_named (hg : g.Named) (e : RawExpr) (he : e.Named) :
    (suffixesRule g e).Yields Expr.Named := by
  have hmember : ∀ member pos, (Expr.member e member pos).Named := fun member pos =>
    .of_children (by intro _ _ h; cases h) (by simpa [Node.children, Expr.children] using he)
  refine yields_peek.bind fun t _ => ?_
  split
  · refine yields_advance.bind fun _ _ => yields_ident.bind fun member _ => ?_
    exact hg.suffixes _ (hmember member t.pos)
  · refine yields_advance.bind fun _ _ => (hg.expr 0).bind fun key hkey => ?_
    refine (yields_expect _).bind fun _ _ => hg.suffixes _ (.of_children (by intro _ _ h; cases h) ?_)
    simpa [Node.children, Expr.children] using ⟨he, hkey⟩
  · refine yields_advance.bind fun _ _ => yields_ident.bind fun member _ => ?_
    refine (args_named hg).bind fun es hes => hg.suffixes _ (.of_children (by intro _ _ h; cases h) ?_)
    simpa [Node.children, Expr.children] using ⟨hmember member t.pos, hes⟩
  iterate 3
    refine (args_named hg).bind fun es hes => hg.suffixes _ (.of_children (by intro _ _ h; cases h) ?_)
    simpa [Node.children, Expr.children] using ⟨he, hes⟩
  · exact .pure he

lemma suffixed_named (hg : g.Named) : (suffixed g).Yields Expr.Named :=
  (primary_named hg).bind fun e he => suffixesRule_named hg e he

lemma block_named (hg : g.Named) : (block g).Yields fun b => (Node.block b).Named := by
  refine yields_here.bind fun _ _ => hg.stmts.bind fun ss hss => .pure (.of_children nofun ?_)
  simpa [Node.children, Block.stmts] using hss

lemma paramsRule_named (hg : g.Named) : (paramsRule g).Yields fun _ => True := by
  refine (yields_eat _).bind fun _ _ => .ite (.pure trivial) ?_
  refine yields_binder.bind fun b _ => (yields_eat _).bind fun _ _ => .ite ?_ (.pure trivial)
  exact hg.params.bind fun _ _ => .pure trivial

lemma function_named (hg : g.Named) (pos : Position) (receiver : List Binder) :
    (function g pos receiver).Yields Function.Named := by
  have hrest : ∀ params : List Binder × Bool, Yields Function.Named (do
      let _ ← expect .rParen
      let body ← block g
      let _ ← expect .kwEnd
      return .mk (receiver ++ params.1) params.2 body pos) := by
    intro params
    refine (yields_expect _).bind fun _ _ => (block_named hg).bind fun body hbody => ?_
    refine (yields_expect _).bind fun _ _ => .pure (.of_children nofun ?_)
    simpa [Node.children, Expr.children, Function.body] using hbody
  refine (yields_expect _).bind fun _ _ => yields_kind.bind fun _ _ => ?_
  exact .ite (hrest ([], false)) ((paramsRule_named hg).bind fun params _ => hrest params)

lemma simple_named (hg : g.Named) : (simple g).Yields Expr.Named := by
  refine yields_peek.bind fun t _ => ?_
  split
  · refine yields_advance.bind fun _ _ => ?_
    split
    · exact .pure (.of_children nofun nofun)
    · exact yields_failAt _ _
  iterate 5 exact yields_advance.bind fun _ _ => .pure (.of_children nofun nofun)
  · exact table_named hg
  · exact yields_advance.bind fun _ _ => (function_named hg _ _).bind fun f hf => .pure hf
  · exact suffixed_named hg

lemma operatorsRule_named (hg : g.Named) (limit : Nat) (left : RawExpr) (hleft : left.Named) :
    (operatorsRule g limit left).Yields Expr.Named := by
  refine yields_peek.bind fun t _ => ?_
  split
  · rename_i op _
    refine .ite ?_ (.pure hleft)
    refine yields_advance.bind fun _ _ => (hg.expr _).bind fun right hright => ?_
    refine hg.operators limit _ (.of_children nofun ?_)
    simpa [Node.children, Expr.children] using ⟨hleft, hright⟩
  · exact .pure hleft

lemma exprRule_named (hg : g.Named) (limit : Nat) : (exprRule g limit).Yields Expr.Named := by
  refine yields_peek.bind fun t _ => ?_
  have hrest := operatorsRule_named hg limit
  split
  · rename_i op _
    refine yields_advance.bind fun _ _ => (hg.expr _).bind fun operand hoperand => ?_
    refine hrest _ (.of_children nofun ?_)
    simpa [Node.children, Expr.children] using hoperand
  · exact (simple_named hg).bind hrest

lemma moreExprsRule_named (hg : g.Named) : (moreExprsRule g).Yields (∀ e ∈ ·, e.Named) := by
  refine (yields_eat _).bind fun _ _ => .ite ?_ (.pure nofun)
  refine (hg.expr 0).bind fun e he => hg.moreExprs.bind fun es hes => .pure ?_
  exact List.forall_mem_cons.2 ⟨he, hes⟩

lemma exprsRule_named (hg : g.Named) : (exprsRule g).Yields (∀ e ∈ ·, e.Named) := by
  refine (exprRule_named hg 0).bind fun e he => (moreExprsRule_named hg).bind fun es hes => ?_
  exact .pure (List.forall_mem_cons.2 ⟨he, hes⟩)

lemma item_named (hg : g.Named) : (item g).Yields fun i => (Node.item i).Named := by
  refine yields_peek.bind fun t _ => .ite ?_ ?_
  · refine yields_advance.bind fun _ _ => (hg.expr 0).bind fun key hkey => ?_
    refine (yields_expect _).bind fun _ _ => (yields_expect _).bind fun _ _ => ?_
    refine (hg.expr 0).bind fun value hvalue => .pure (.of_children (by intro _ _ h; cases h) ?_)
    simpa [Node.children, Item.children] using ⟨hkey, hvalue⟩
  · refine (yields_nextIs _).bind fun _ _ => .ite ?_ ?_
    · refine yields_advance.bind fun _ _ => yields_advance.bind fun _ _ => ?_
      refine (hg.expr 0).bind fun value hvalue => .pure (.of_children (by intro _ _ h; cases h) ?_)
      simpa [Node.children, Item.children] using hvalue
    · refine (exprRule_named hg 0).bind fun value hvalue => .pure (.of_children (by intro _ _ h; cases h) ?_)
      simpa [Node.children, Item.children] using hvalue

lemma itemsRule_named (hg : g.Named) : (itemsRule g).Yields (∀ i ∈ ·, (Node.item i).Named) := by
  refine yields_kind.bind fun _ _ => .ite (.pure nofun) ?_
  refine (item_named hg).bind fun i hi => ?_
  have hmore : (do return i :: (← g.items) : Parser (List (Item String Binder))).Yields
      (∀ i ∈ ·, (Node.item i).Named) :=
    hg.items.bind fun is his => .pure (List.forall_mem_cons.2 ⟨hi, his⟩)
  refine (yields_eat _).bind fun _ _ => .ite hmore ?_
  refine (yields_eat _).bind fun _ _ => .ite hmore (.pure ?_)
  exact List.forall_mem_singleton.2 hi

/-! ### Statements -/

lemma moreNamesRule_named (hg : g.Named) : (moreNamesRule g).Yields fun _ => True := by
  refine (yields_eat _).bind fun _ _ => .ite ?_ (.pure trivial)
  exact yields_binder.bind fun _ _ => hg.moreNames.bind fun _ _ => .pure trivial

lemma localVars_named (hg : g.Named) (pos : Position) : (localVars g pos).Yields Stmt.Named := by
  have hrest : ∀ bs values, (∀ e ∈ values, e.Named) → (Stmt.localVars bs values pos).Named := by
    intro bs values hvalues
    refine .of_children nofun ?_
    simpa [Node.children, Stmt.children] using hvalues
  refine yields_binder.bind fun b _ => (moreNamesRule_named hg).bind fun bs _ => ?_
  refine (yields_eat _).bind fun _ _ => .ite ?_ (.pure (hrest _ [] nofun))
  exact (exprsRule_named hg).bind fun values hvalues => .pure (hrest _ values hvalues)

lemma localFunction_named (hg : g.Named) (pos : Position) :
    (localFunction g pos).Yields Stmt.Named := by
  refine yields_binder.bind fun b _ => (function_named hg pos []).bind fun f hf => ?_
  refine .pure (.of_children nofun ?_)
  simpa [Node.children, Stmt.children] using hf

lemma pathRule_named (hg : g.Named) (pos : Position) (target : RawExpr) (h : target.Named) :
    (pathRule g pos target).Yields fun x => x.1.Named := by
  have hmember : ∀ member, (Expr.member target member pos).Named := fun member =>
    .of_children nofun (by simpa [Node.children, Expr.children] using h)
  refine (yields_eat _).bind fun _ _ => .ite ?_ ?_
  · exact yields_ident.bind fun member _ => hg.path pos _ (hmember member)
  · refine (yields_eat _).bind fun _ _ => .ite ?_ (.pure h)
    exact yields_ident.bind fun member _ => .pure (hmember member)

lemma functionDecl_named (hg : g.Named) (pos : Position) :
    (functionDecl g pos).Yields Stmt.Named := by
  refine yields_binder.bind fun b hb => ?_
  have hroot : (Expr.name b.name b.pos : RawExpr).Named := by
    refine .of_children (fun name pos heq => ?_) nofun
    cases heq
    exact hb
  refine (pathRule_named hg pos _ hroot).bind fun x hx =>
    (function_named hg pos _).bind fun f hf => ?_
  refine .pure (.of_children nofun ?_)
  simpa [Node.children, Stmt.children] using ⟨hx, hf⟩

lemma alternativeRule_named (hg : g.Named) : (alternativeRule g).Yields Alternative.Named := by
  refine (yields_eat _).bind fun _ _ => .ite ?_ ?_
  · refine (hg.expr 0).bind fun condition hcondition => (yields_expect _).bind fun _ _ => ?_
    refine (block_named hg).bind fun body hbody => hg.alternative.bind fun rest hrest => .pure ?_
    exact List.forall_mem_cons.2 ⟨hcondition, List.forall_mem_cons.2 ⟨hbody, hrest⟩⟩
  · refine (yields_eat _).bind fun _ _ => .ite ?_ (.pure nofun)
    refine (block_named hg).bind fun body hbody => .pure ?_
    exact List.forall_mem_singleton.2 hbody

lemma conditional_named (hg : g.Named) (pos : Position) :
    (conditional g pos).Yields Stmt.Named := by
  refine (hg.expr 0).bind fun condition hcondition => (yields_expect _).bind fun _ _ => ?_
  refine (block_named hg).bind fun body hbody => ?_
  refine (alternativeRule_named hg).bind fun rest hrest => (yields_expect _).bind fun _ _ => ?_
  refine .pure (.of_children nofun ?_)
  exact List.forall_mem_cons.2 ⟨hcondition, List.forall_mem_cons.2 ⟨hbody, hrest⟩⟩

lemma forLoop_named (hg : g.Named) (pos : Position) : (forLoop g pos).Yields Stmt.Named := by
  refine yields_binder.bind fun b _ => (yields_eat _).bind fun _ _ => .ite ?_ ?_
  · refine (hg.expr 0).bind fun start hstart => (yields_expect _).bind fun _ _ => ?_
    refine (hg.expr 0).bind fun limit hlimit => ?_
    have hrest : ∀ step : Option RawExpr, (∀ e ∈ step, e.Named) → Yields Stmt.Named (do
        let _ ← expect .kwDo
        let body ← block g
        let _ ← expect .kwEnd
        return .numericFor b start limit step body pos) := by
      intro step hstep
      refine (yields_expect _).bind fun _ _ => (block_named hg).bind fun body hbody => ?_
      refine (yields_expect _).bind fun _ _ => .pure (.of_children nofun fun c hc => ?_)
      simp only [Node.children, Stmt.children, List.mem_cons, List.mem_append, List.mem_map,
        Option.mem_toList, List.not_mem_nil, or_false] at hc
      rcases hc with rfl | rfl | ⟨e, he, rfl⟩ | rfl
      · exact hstart
      · exact hlimit
      · exact hstep e he
      · exact hbody
    refine (yields_eat _).bind fun _ _ => .ite ?_ (hrest none nofun)
    refine (hg.expr 0).bind fun e he => hrest (some e) fun x hx => ?_
    cases hx
    exact he
  · refine (moreNamesRule_named hg).bind fun bs _ => (yields_expect _).bind fun _ _ => ?_
    refine hg.exprs.bind fun values hvalues => (yields_expect _).bind fun _ _ => ?_
    refine (block_named hg).bind fun body hbody => (yields_expect _).bind fun _ _ => ?_
    refine .pure (.of_children nofun fun c hc => ?_)
    simp only [Node.children, Stmt.children, List.mem_append, List.mem_map,
      List.mem_singleton] at hc
    rcases hc with ⟨e, he, rfl⟩ | rfl
    · exact hvalues e he
    · exact hbody

lemma moreTargetsRule_named (hg : g.Named) : (moreTargetsRule g).Yields (∀ e ∈ ·, e.Named) := by
  refine (yields_eat _).bind fun _ _ => .ite ?_ (.pure nofun)
  refine (suffixed_named hg).bind fun e he => hg.moreTargets.bind fun es hes => .pure ?_
  exact List.forall_mem_cons.2 ⟨he, hes⟩

lemma yields_checkAssignable (e : RawExpr) : (checkAssignable e).Yields fun _ => True :=
  .ite (.pure trivial) (yields_failAt _ _)

lemma yields_checkAssignables (es : List RawExpr) :
    (es.forM checkAssignable).Yields fun _ => True := by
  induction es with
  | nil => exact .pure trivial
  | cons e es ih => exact (yields_checkAssignable e).bind fun _ _ => ih

lemma exprStmt_named (hg : g.Named) (pos : Position) : (exprStmt g pos).Yields Stmt.Named := by
  refine (suffixed_named hg).bind fun first hfirst => yields_peek.bind fun t _ => ?_
  split
  · refine yields_advance.bind fun _ _ => (yields_checkAssignable first).bind fun _ _ => ?_
    refine (hg.expr 0).bind fun value hvalue => .pure (.of_children nofun ?_)
    simpa [Node.children, Stmt.children] using ⟨hfirst, hvalue⟩
  · refine .ite ?_ (.ite (.pure (.of_children nofun ?_)) (yields_failAt _ _))
    · refine (moreTargetsRule_named hg).bind fun targets htargets => ?_
      refine (yields_expect _).bind fun _ _ => (yields_checkAssignables _).bind fun _ _ => ?_
      refine hg.exprs.bind fun values hvalues => .pure (.of_children nofun fun c hc => ?_)
      simp only [Node.children, Stmt.children, List.mem_append, List.mem_map] at hc
      rcases hc with ⟨e, he, rfl⟩ | ⟨e, he, rfl⟩
      · exact List.forall_mem_cons.2 ⟨hfirst, htargets⟩ e he
      · exact hvalues e he
    · simpa [Node.children, Stmt.children] using hfirst

lemma stmt_named (hg : g.Named) : (stmt g).Yields Stmt.Named := by
  refine yields_peek.bind fun t _ => ?_
  split
  · refine yields_advance.bind fun _ _ => (yields_eat _).bind fun _ _ => ?_
    exact .ite (localFunction_named hg _) (localVars_named hg _)
  · exact yields_advance.bind fun _ _ => functionDecl_named hg _
  · refine yields_advance.bind fun _ _ => (block_named hg).bind fun body hbody => ?_
    refine (yields_expect _).bind fun _ _ => .pure (.of_children nofun ?_)
    exact List.forall_mem_singleton.2 hbody
  · exact yields_advance.bind fun _ _ => conditional_named hg _
  · refine yields_advance.bind fun _ _ => (hg.expr 0).bind fun condition hcondition => ?_
    refine (yields_expect _).bind fun _ _ => (block_named hg).bind fun body hbody => ?_
    refine (yields_expect _).bind fun _ _ => .pure (.of_children nofun ?_)
    simpa [Node.children, Stmt.children] using ⟨hcondition, hbody⟩
  · refine yields_advance.bind fun _ _ => (block_named hg).bind fun body hbody => ?_
    refine (yields_expect _).bind fun _ _ => (hg.expr 0).bind fun condition hcondition => ?_
    refine .pure (.of_children nofun ?_)
    simpa [Node.children, Stmt.children] using ⟨hbody, hcondition⟩
  · exact yields_advance.bind fun _ _ => forLoop_named hg _
  · refine yields_advance.bind fun _ _ => yields_kind.bind fun _ _ => .ite ?_ ?_
    · exact .pure (.of_children nofun nofun)
    · refine hg.exprs.bind fun values hvalues => .pure (.of_children nofun ?_)
      simpa [Node.children, Stmt.children] using hvalues
  · exact yields_advance.bind fun _ _ => .pure (.of_children nofun nofun)
  · exact exprStmt_named hg _

lemma stmtsRule_named (hg : g.Named) : (stmtsRule g).Yields (∀ s ∈ ·, s.Named) := by
  refine yields_kind.bind fun k _ => .ite (.pure nofun) ?_
  refine (stmt_named hg).bind fun s hs => (yields_eat _).bind fun _ _ => .ite ?_ ?_
  · exact .pure (List.forall_mem_singleton.2 hs)
  · exact hg.stmts.bind fun ss hss => .pure (List.forall_mem_cons.2 ⟨hs, hss⟩)

/-! ### Levels -/

/-- A grammar made from one whose parsers give named trees is such a grammar. -/
lemma rules_named (hg : g.Named) : (rules g).Named where
  stmts := stmtsRule_named hg
  alternative := alternativeRule_named hg
  expr := exprRule_named hg
  operators := operatorsRule_named hg
  suffixes := suffixesRule_named hg
  exprs := exprsRule_named hg
  moreExprs := moreExprsRule_named hg
  moreTargets := moreTargetsRule_named hg
  moreNames := moreNamesRule_named hg
  path := pathRule_named hg
  params := paramsRule_named hg
  items := itemsRule_named hg

lemma yields_tooDeep {α : Type} {P : α → Prop} : Yields P (tooDeep : Parser α) :=
  yields_here.bind fun _ _ => yields_failAt _ _

lemma bottom_named : bottom.Named where
  stmts := yields_tooDeep
  alternative := yields_tooDeep
  expr _ := yields_tooDeep
  operators _ _ _ := yields_tooDeep
  suffixes _ _ := yields_tooDeep
  exprs := yields_tooDeep
  moreExprs := yields_tooDeep
  moreTargets := yields_tooDeep
  moreNames := yields_tooDeep
  path _ _ _ := yields_tooDeep
  params := yields_tooDeep
  items := yields_tooDeep

/-- **Every level of the grammar** gives trees without empty names. -/
theorem level_named (n : Nat) : (level n).Named := by
  induction n with
  | zero => exact bottom_named
  | succ n ih => exact rules_named ih

end Grammar

/-! ## Programs -/

/-- **The tree of well-named tokens** has no empty names. -/
theorem parseChunk_named {tokens : List Token} {body : RawBlock}
    (htokens : ∀ t ∈ tokens, t.WellNamed) (h : parseChunk tokens = .ok body) :
    (Node.block body).Named := by
  have hchunk : (chunk (.level tokens.length)).Yields fun b => (Node.block b).Named := by
    refine (Grammar.block_named (Grammar.level_named _)).bind fun b hb => ?_
    exact Parser.yields_peek.bind fun t _ => .ite (.pure hb) (Parser.yields_failAt _ _)
  rw [parseChunk] at h
  cases hrun : chunk (.level tokens.length) tokens with
  | error e => rw [hrun] at h; cases h
  | ok x =>
    rw [hrun] at h
    cases h
    exact (hchunk tokens x.1 x.2 htokens hrun).1

/-- **A global of the program of a source text** has a name that is not empty.

**Proof sketch.** With the names put back, the program is the parsed tree, and the global has kept
its name. -/
theorem Program.globalName_ne_empty {source : String} {p : Program} {name : String} {pos : Position}
    (h : parseProgram source = .ok p)
    (hmem : Node.expr (.name (.globalVar name) pos) ∈ (Node.block p.body).nodes) : name ≠ "" := by
  obtain ⟨tokens, body, htokens, hbody, rfl⟩ := parseProgram_eq_ok h
  have hnamed := parseChunk_named (Lexer.tokensFrom_wellNamed _ _ tokens htokens) hbody
  have hwritten := List.mem_map_of_mem (f := Node.rename (nameOf (ofBlock body).locals)
    (binderOf (ofBlock body).locals)) hmem
  rw [← Node.nodes_rename] at hwritten
  refine hnamed name pos ?_
  rw [← ofBlock_rename body]
  exact hwritten

end ScriptCore
