import ScriptCore.Proofs.Contents

set_option relaxedAutoImplicit false
set_option autoImplicit false

/-!
# What the parser makes of tokens

The tree of a list of tokens has the contents of the tokens, in their order, and it is grammatical. Both
are carried through the rules of the grammar together: a rule is given the contents read so far, and each
token it takes and each part it parses adds its own.

The operators behind a left operand are read by a loop. It keeps that they bind more tightly than its limit,
and that the operand read so far ends before the next operator.

## Main definitions

* `ScriptCore.Expr.StopsAt` — an expression ends before the operator that follows it.
* `ScriptCore.Grammar.Faithful` — a grammar whose parsers keep the contents and give grammatical trees.

## Main results

* `ScriptCore.Grammar.level_faithful` — every level of the grammar does.
* `ScriptCore.parseChunk_faithful` — the tree of a complete list of tokens.
-/

namespace ScriptCore

open ScriptCore.Parser

/-- **An expression ends before the operator that follows it**: if an operator stands at the front, it does
not bind more tightly than the limit, and the operands along the right edge end before it. -/
def Expr.StopsAt (limit : Nat) (e : RawExpr) (rest : List Token) : Prop :=
  ∀ op, BinaryOp.ofKind? (front rest).kind = some op →
    op.priority.1 ≤ limit ∧ e.ClosesAt op.priority.1

/-- **A grammar whose parsers keep the contents** of what they read and give grammatical trees. -/
structure Grammar.Faithful (g : Grammar) : Prop where
  stmts : ∀ ts, g.stmts.Ensures (fun ss rest => Reads ts rest (stmtsContents ss) ∧
    (∀ s ∈ ss, s.Grammatical) ∧ ∀ s ∈ ss.dropLast, s.isExit = false) ts
  alternative : ∀ ts, g.alternative.Ensures (fun a rest =>
    Reads ts rest a.contents ∧ a.Grammatical) ts
  expr : ∀ limit ts, (g.expr limit).Ensures (fun e rest => Reads ts rest e.contents ∧
    e.Grammatical ∧ e.OpensAbove limit ∧ e.StopsAt limit rest) ts
  operators : ∀ limit left ts₀ ts, Reads ts₀ ts left.contents → left.Grammatical →
    left.OpensAbove limit →
    (∀ op, BinaryOp.ofKind? (front ts).kind = some op → left.ClosesAt op.priority.1) →
    (g.operators limit left).Ensures (fun e rest => Reads ts₀ rest e.contents ∧
      e.Grammatical ∧ e.OpensAbove limit ∧ e.StopsAt limit rest) ts
  suffixes : ∀ e ts₀ ts, Reads ts₀ ts e.contents → e.Grammatical → e.isHead →
    (g.suffixes e).Ensures (fun e' rest => Reads ts₀ rest e'.contents ∧ e'.Grammatical ∧ e'.isHead) ts
  exprs : ∀ ts, g.exprs.Ensures (fun es rest => Reads ts rest (exprsContents es) ∧
    (∀ e ∈ es, e.Grammatical) ∧ es ≠ []) ts
  moreExprs : ∀ ts, g.moreExprs.Ensures (fun es rest => Reads ts rest (exprsContents es) ∧
    ∀ e ∈ es, e.Grammatical) ts
  moreTargets : ∀ ts, g.moreTargets.Ensures (fun es rest => Reads ts rest (exprsContents es) ∧
    ∀ e ∈ es, e.Grammatical) ts
  moreNames : ∀ ts, g.moreNames.Ensures (fun bs rest =>
    Reads ts rest (bs.map fun b => .name b.name)) ts
  path : ∀ pos e ts₀ ts, Reads ts₀ ts e.contents → e.Grammatical → e.isPath →
    (g.path pos e).Ensures (fun x rest => Reads ts₀ rest x.1.contents ∧ x.1.Grammatical ∧ x.1.isPath) ts
  params : ∀ ts, g.params.Ensures (fun x rest => Reads ts rest (paramContents x.1 x.2) ∧
    ∀ b ∈ x.1, b.pos ∈ ts.map Token.pos) ts
  items : ∀ ts, g.items.Ensures (fun is rest => Reads ts rest (itemsContents is) ∧
    ∀ i ∈ is, i.Grammatical) ts

namespace Grammar

variable {g : Grammar}

/-! ### Expressions -/

lemma primary_faithful (hg : g.Faithful) (ts : List Token) : (primary g).Ensures (fun e rest =>
    Reads ts rest e.contents ∧ e.Grammatical ∧ e.isHead) ts := by
  refine ensures_peek_bind ?_
  split
  · next hname =>
    refine ensures_advance_bind (.pure ⟨?_, .of_children trivial nofun, rfl⟩)
    exact (Reads.refl ts).take hname
  · next hopen =>
    refine ensures_advance_bind ((hg.expr 0 _).bind fun inner rest _ hinner => ?_)
    refine ensures_expect_bind fun hclose => .pure ⟨?_, .of_children trivial ?_, rfl⟩
    · exact (((Reads.refl ts).skip hopen rfl).append hinner.1).skip hclose rfl
    · exact List.forall_mem_singleton.2 hinner.2.1
  · exact ensures_failAt _ _

lemma table_faithful (hg : g.Faithful) (ts : List Token) : (table g).Ensures (fun e rest =>
    Reads ts rest e.contents ∧ e.Grammatical ∧ e.isSimple) ts := by
  refine ensures_expect_bind fun hopen => (hg.items _).bind fun items rest _ hitems => ?_
  refine ensures_expect_bind fun hclose => .pure ⟨?_, .of_children trivial ?_, rfl⟩
  · exact (((Reads.refl ts).skip hopen rfl).append hitems.1).skip hclose rfl
  · exact List.forall_mem_map.2 hitems.2

lemma args_faithful (hg : g.Faithful) (ts : List Token) : (args g).Ensures (fun es rest =>
    Reads ts rest (exprsContents es) ∧ ∀ e ∈ es, e.Grammatical) ts := by
  refine ensures_peek_bind ?_
  split
  · next hstring =>
    refine ensures_advance_bind (.pure ⟨(Reads.refl ts).take hstring, ?_⟩)
    exact List.forall_mem_singleton.2 (.of_children trivial nofun)
  · refine (table_faithful hg ts).bind fun e rest _ he => .pure ⟨?_, List.forall_mem_singleton.2 he.2.1⟩
    simpa [exprsContents] using he.1
  · refine ensures_expect_bind fun hopen => ?_
    have hbehind := (Reads.refl ts).skip hopen rfl
    refine ensures_eat_bind (fun hclose => ?_) (fun _ => ?_)
    · exact .pure ⟨hbehind.skip hclose rfl, nofun⟩
    · refine (hg.exprs _).bind fun es rest _ hes => ensures_expect_bind fun hclose => ?_
      exact .pure ⟨(hbehind.append hes.1).skip hclose rfl, hes.2.1⟩

lemma suffixesRule_faithful (hg : g.Faithful) (e : RawExpr) (ts₀ ts : List Token)
    (hreads : Reads ts₀ ts e.contents) (he : e.Grammatical) (hhead : e.isHead) :
    (suffixesRule g e).Ensures (fun e' rest => Reads ts₀ rest e'.contents ∧ e'.Grammatical ∧
      e'.isHead) ts := by
  have hcall : (args g >>= fun es => g.suffixes (.call e es false (front ts).pos)).Ensures
      (fun e' rest => Reads ts₀ rest e'.contents ∧ e'.Grammatical ∧ e'.isHead) ts := by
    refine (args_faithful hg _).bind fun es rest _ hes => ?_
    refine hg.suffixes _ _ _ (hreads.append hes.1) (.of_children ⟨hhead, nofun⟩ ?_) rfl
    exact List.forall_mem_cons.2 ⟨he, List.forall_mem_map.2 hes.2⟩
  refine ensures_peek_bind ?_
  split
  · next hdot =>
    refine ensures_advance_bind (ensures_ident_bind fun hname => ?_)
    refine hg.suffixes _ _ _ ((hreads.skip hdot rfl).take hname) (.of_children hhead ?_) rfl
    exact List.forall_mem_singleton.2 he
  · next hopen =>
    refine ensures_advance_bind ((hg.expr 0 _).bind fun key rest _ hkey => ?_)
    refine ensures_expect_bind fun hclose => ?_
    refine hg.suffixes _ _ _ (((hreads.skip hopen rfl).append hkey.1).skip hclose rfl)
      (.of_children hhead ?_) rfl
    exact List.forall_mem_cons.2 ⟨he, List.forall_mem_singleton.2 hkey.2.1⟩
  · next hcolon =>
    refine ensures_advance_bind (ensures_ident_bind fun hname => ?_)
    refine (args_faithful hg _).bind fun es rest _ hes => ?_
    refine hg.suffixes _ _ _ (((hreads.skip hcolon rfl).take hname).append hes.1)
      (.of_children ⟨rfl, fun _ => rfl⟩ ?_) rfl
    refine List.forall_mem_cons.2 ⟨.of_children hhead ?_, List.forall_mem_map.2 hes.2⟩
    exact List.forall_mem_singleton.2 he
  iterate 3 exact hcall
  · exact .pure ⟨hreads, he, hhead⟩

lemma suffixed_faithful (hg : g.Faithful) (ts : List Token) : (suffixed g).Ensures (fun e rest =>
    Reads ts rest e.contents ∧ e.Grammatical ∧ e.isHead) ts :=
  (primary_faithful hg ts).bind fun e rest _ he => suffixesRule_faithful hg e ts rest he.1 he.2.1 he.2.2

lemma block_faithful (hg : g.Faithful) (ts : List Token) : (block g).Ensures (fun b rest =>
    Reads ts rest b.contents ∧ b.Grammatical) ts := by
  refine ensures_here_bind ((hg.stmts ts).bind fun ss rest _ hss => .pure ⟨hss.1, ?_⟩)
  exact .of_children hss.2.2 (List.forall_mem_map.2 hss.2.1)

/-- A token that is not the end of the input is one of the list. -/
lemma front_mem {ts : List Token} (h : (front ts).kind ≠ .eof) : front ts ∈ ts := by
  cases ts with
  | nil => exact absurd rfl h
  | cons t ts => exact List.mem_cons_self

/-- A place of the tail of a list of tokens is one of the list. -/
lemma pos_mem_of_tail {ts : List Token} {pos : Position} (h : pos ∈ ts.tail.map Token.pos) :
    pos ∈ ts.map Token.pos := by
  rw [List.map_tail] at h
  exact List.mem_of_mem_tail h

lemma paramsRule_faithful (hg : g.Faithful) (ts : List Token) : (paramsRule g).Ensures (fun x rest =>
    Reads ts rest (paramContents x.1 x.2) ∧ ∀ b ∈ x.1, b.pos ∈ ts.map Token.pos) ts := by
  refine ensures_eat_bind (fun hdots => .pure ⟨(Reads.refl ts).take hdots, nofun⟩) fun _ => ?_
  refine ensures_binder_bind fun hname => ?_
  have hread := (Reads.refl ts).take hname
  have hplace : (front ts).pos ∈ ts.map Token.pos :=
    List.mem_map_of_mem (front_mem (by rw [hname]; decide))
  refine ensures_eat_bind (fun hcomma => ?_) (fun _ => ?_)
  · refine (hg.params _).bind fun x rest _ hx => .pure ⟨?_, List.forall_mem_cons.2 ⟨hplace, ?_⟩⟩
    · exact (hread.skip hcomma rfl).append hx.1
    · exact fun b hb => pos_mem_of_tail (pos_mem_of_tail (hx.2 b hb))
  · exact .pure ⟨hread, List.forall_mem_singleton.2 hplace⟩

/-- A function literal has the parameters that are read behind those in front. -/
lemma function_faithful (hg : g.Faithful) (pos : Position) (receiver : List Binder) (ts : List Token) :
    (function g pos receiver).Ensures (fun f rest => ∃ params variadic body,
      f = .mk (receiver ++ params) variadic body pos ∧ body.Grammatical ∧
      Reads ts rest (paramContents params variadic ++ body.contents) ∧
      ∀ b ∈ params, b.pos ∈ ts.map Token.pos) ts := by
  refine ensures_expect_bind fun hopen => ensures_kind_bind ?_
  have hbehind := (Reads.refl ts).skip hopen rfl
  -- what is read behind the parameters
  have hrest : ∀ (x : List Binder × Bool) mid, Reads ts mid (paramContents x.1 x.2) →
      (∀ b ∈ x.1, b.pos ∈ ts.map Token.pos) → Ensures (do
        let _ ← expect .rParen
        let body ← block g
        let _ ← expect .kwEnd
        return Function.mk (receiver ++ x.1) x.2 body pos : Parser RawFunction)
      (fun f rest => ∃ params variadic body,
        f = .mk (receiver ++ params) variadic body pos ∧ body.Grammatical ∧
        Reads ts rest (paramContents params variadic ++ body.contents) ∧
        ∀ b ∈ params, b.pos ∈ ts.map Token.pos) mid := by
    intro x mid hx hplaces
    refine ensures_expect_bind fun hclose => (block_faithful hg _).bind fun body rest _ hbody => ?_
    refine ensures_expect_bind fun hend => .pure ⟨x.1, x.2, body, rfl, hbody.2, ?_, hplaces⟩
    exact ((hx.skip hclose rfl).append hbody.1).skip hend rfl
  refine .ite (fun _ => hrest ([], false) _ hbehind nofun) fun _ => ?_
  refine (paramsRule_faithful hg _).bind fun x rest _ hx => ?_
  exact hrest x rest (hbehind.append hx.1) fun b hb => pos_mem_of_tail (hx.2 b hb)

/-- A function literal without parameters in front. -/
lemma function_faithful_nil (hg : g.Faithful) (pos : Position) (ts : List Token) :
    (function g pos []).Ensures (fun f rest => Reads ts rest f.contents ∧
      (Expr.function f).Grammatical) ts := by
  refine (function_faithful hg pos [] ts).mono ?_
  rintro f rest - ⟨params, variadic, body, rfl, hbody, hread, -⟩
  exact ⟨hread, .of_children trivial (List.forall_mem_singleton.2 hbody)⟩

lemma simple_faithful (hg : g.Faithful) (ts : List Token) : (simple g).Ensures (fun e rest =>
    Reads ts rest e.contents ∧ e.Grammatical ∧ e.isSimple) ts := by
  have hleaf : ∀ {k : Token.Kind} (e : RawExpr), (front ts).kind = k →
      e.contents = k.contents (front ts).lexeme → e.Regular → (Node.expr e).children = [] →
      e.isSimple → (Pure.pure e : Parser RawExpr).Ensures (fun e rest =>
        Reads ts rest e.contents ∧ e.Grammatical ∧ e.isSimple) ts.tail := by
    intro k e hk hcontents hregular hchildren hsimple
    refine .pure ⟨?_, .of_children hregular (by rw [hchildren]; nofun), hsimple⟩
    rw [hcontents]
    exact (Reads.refl ts).take hk
  refine ensures_peek_bind ?_
  split
  · next hnumber =>
    refine ensures_advance_bind ?_
    split
    · next value hvalue =>
      refine hleaf (.number value _) hnumber ?_ ⟨_, hvalue⟩ rfl rfl
      rw [Expr.contents, Token.Kind.contents, hvalue]
    · exact ensures_failAt _ _
  · next hk => exact ensures_advance_bind (hleaf (.string _ _) hk rfl trivial rfl rfl)
  · next hk => exact ensures_advance_bind (hleaf (.nil _) hk rfl trivial rfl rfl)
  · next hk => exact ensures_advance_bind (hleaf (.bool true _) hk rfl trivial rfl rfl)
  · next hk => exact ensures_advance_bind (hleaf (.bool false _) hk rfl trivial rfl rfl)
  · next hk => exact ensures_advance_bind (hleaf (.varargs _) hk rfl trivial rfl rfl)
  · exact table_faithful hg ts
  · next hk =>
    refine ensures_advance_bind ((function_faithful_nil hg _ _).bind fun f rest _ hf => ?_)
    exact .pure ⟨((Reads.refl ts).skip hk rfl).append hf.1, hf.2, rfl⟩
  · refine (suffixed_faithful hg ts).mono fun e rest _ he => ?_
    exact ⟨he.1, he.2.1, Expr.isSimple_of_isHead he.2.2⟩

lemma operatorsRule_faithful (hg : g.Faithful) (limit : Nat) (left : RawExpr) (ts₀ ts : List Token)
    (hreads : Reads ts₀ ts left.contents) (hleft : left.Grammatical) (hopens : left.OpensAbove limit)
    (hcloses : ∀ op, BinaryOp.ofKind? (front ts).kind = some op → left.ClosesAt op.priority.1) :
    (operatorsRule g limit left).Ensures (fun e rest => Reads ts₀ rest e.contents ∧
      e.Grammatical ∧ e.OpensAbove limit ∧ e.StopsAt limit rest) ts := by
  refine ensures_peek_bind ?_
  split
  · next op hop =>
    refine .ite (fun htight => ?_) (fun hloose => ?_)
    · refine ensures_advance_bind ((hg.expr op.priority.2 _).bind ?_)
      rintro right rest - ⟨hread, hright, hropens, hstops⟩
      refine hg.operators limit _ ts₀ rest ?_ (.of_children ⟨hcloses op hop, hropens⟩ ?_)
        ⟨htight, hopens⟩ fun op' hop' => hstops op' hop'
      · have hk := BinaryOp.kind_of_ofKind? hop
        have hcontents : op.kind.contents (front ts).lexeme = [.operator op.kind] := by
          cases op <;> rfl
        have := (hreads.take hk).append hread
        rw [hcontents] at this
        simpa [Expr.contents] using this
      · exact List.forall_mem_cons.2 ⟨hleft, List.forall_mem_singleton.2 hright⟩
    · refine .pure ⟨hreads, hleft, hopens, fun op' hop' => ?_⟩
      obtain rfl : op = op' := Option.some.inj (hop.symm.trans hop')
      exact ⟨not_lt.1 hloose, hcloses op hop⟩
  · next hnone =>
    refine .pure ⟨hreads, hleft, hopens, fun op hop => ?_⟩
    rw [hnone] at hop
    cases hop

lemma exprRule_faithful (hg : g.Faithful) (limit : Nat) (ts : List Token) :
    (exprRule g limit).Ensures (fun e rest => Reads ts rest e.contents ∧
      e.Grammatical ∧ e.OpensAbove limit ∧ e.StopsAt limit rest) ts := by
  refine ensures_peek_bind ?_
  split
  · next op hop =>
    refine ensures_advance_bind ((hg.expr UnaryOp.priority _).bind ?_)
    rintro operand rest - ⟨hread, hoperand, hopens, hstops⟩
    refine operatorsRule_faithful hg limit _ ts rest ?_ (.of_children hopens ?_) trivial fun op' hop' =>
      hstops op' hop'
    · have hk := UnaryOp.kind_of_ofKind? hop
      have hcontents : op.kind.contents (front ts).lexeme = [.operator op.kind] := by
        cases op <;> rfl
      have := ((Reads.refl ts).take hk).append hread
      rw [hcontents] at this
      simpa [Expr.contents] using this
    · exact List.forall_mem_singleton.2 hoperand
  · refine (simple_faithful hg ts).bind fun left rest _ hleft => ?_
    exact operatorsRule_faithful hg limit left ts rest hleft.1 hleft.2.1
      (Expr.opensAbove_of_isSimple hleft.2.2 _) fun _ _ => Expr.closesAt_of_isSimple hleft.2.2 _

lemma moreExprsRule_faithful (hg : g.Faithful) (ts : List Token) : (moreExprsRule g).Ensures
    (fun es rest => Reads ts rest (exprsContents es) ∧ ∀ e ∈ es, e.Grammatical) ts := by
  refine ensures_eat_bind (fun hcomma => ?_) (fun _ => .pure ⟨Reads.refl ts, nofun⟩)
  refine (hg.expr 0 _).bind fun e mid _ he => (hg.moreExprs mid).bind fun es rest _ hes => ?_
  refine .pure ⟨?_, List.forall_mem_cons.2 ⟨he.2.1, hes.2⟩⟩
  exact (((Reads.refl ts).skip hcomma rfl).append he.1).append hes.1

lemma exprsRule_faithful (hg : g.Faithful) (ts : List Token) : (exprsRule g).Ensures
    (fun es rest => Reads ts rest (exprsContents es) ∧ (∀ e ∈ es, e.Grammatical) ∧ es ≠ []) ts := by
  refine (exprRule_faithful hg 0 ts).bind fun e mid _ he => ?_
  refine (moreExprsRule_faithful hg mid).bind fun es rest _ hes => ?_
  exact .pure ⟨he.1.append hes.1, List.forall_mem_cons.2 ⟨he.2.1, hes.2⟩, List.cons_ne_nil _ _⟩

lemma item_faithful (hg : g.Faithful) (ts : List Token) : (item g).Ensures (fun i rest =>
    Reads ts rest i.contents ∧ i.Grammatical) ts := by
  refine ensures_peek_bind (.ite (fun hopen => ?_) fun _ => ensures_nextIs_bind (.ite (fun hname => ?_) fun _ => ?_))
  · refine ensures_advance_bind ((hg.expr 0 _).bind fun key mid _ hkey => ?_)
    refine ensures_expect_bind fun hclose => ensures_expect_bind fun hassign => ?_
    refine (hg.expr 0 _).bind fun value rest _ hvalue => .pure ⟨?_, .of_children trivial ?_⟩
    · exact (((((Reads.refl ts).skip hopen rfl).append hkey.1).skip hclose rfl).skip hassign rfl).append
        hvalue.1
    · exact List.forall_mem_cons.2 ⟨hkey.2.1, List.forall_mem_singleton.2 hvalue.2.1⟩
  · have hassign : (front ts.tail).kind = .assign := by
      obtain ⟨-, hnext⟩ := hname
      cases htail : ts.tail with
      | nil => rw [htail] at hnext; cases hnext
      | cons t tail =>
        rw [htail] at hnext
        exact of_decide_eq_true hnext
    refine ensures_advance_bind (ensures_advance_bind ((hg.expr 0 _).bind fun value rest _ hvalue => ?_))
    refine .pure ⟨?_, .of_children trivial (List.forall_mem_singleton.2 hvalue.2.1)⟩
    exact (((Reads.refl ts).take hname.1).skip hassign rfl).append hvalue.1
  · refine (exprRule_faithful hg 0 ts).bind fun value rest _ hvalue => .pure ⟨hvalue.1, ?_⟩
    exact .of_children trivial (List.forall_mem_singleton.2 hvalue.2.1)

lemma itemsRule_faithful (hg : g.Faithful) (ts : List Token) : (itemsRule g).Ensures
    (fun is rest => Reads ts rest (itemsContents is) ∧ ∀ i ∈ is, i.Grammatical) ts := by
  refine ensures_kind_bind (.ite (fun _ => .pure ⟨Reads.refl ts, nofun⟩) fun _ => ?_)
  refine (item_faithful hg ts).bind fun i mid _ hi => ?_
  have hmore : ∀ {k : Token.Kind}, (front mid).kind = k → (∀ lexeme, k.contents lexeme = []) →
      (g.items >>= fun is => Pure.pure (i :: is)).Ensures
        (fun is rest => Reads ts rest (itemsContents is) ∧ ∀ i ∈ is, i.Grammatical) mid.tail := by
    intro k hk hcontents
    refine (hg.items _).bind fun is rest _ his => .pure ⟨?_, List.forall_mem_cons.2 ⟨hi.2, his.2⟩⟩
    exact (hi.1.skip hk (hcontents _)).append his.1
  refine ensures_eat_bind (fun hk => hmore hk fun _ => rfl) fun _ => ?_
  refine ensures_eat_bind (fun hk => hmore hk fun _ => rfl) fun _ => ?_
  refine .pure ⟨?_, List.forall_mem_singleton.2 hi.2⟩
  simpa [itemsContents] using hi.1

/-! ### Statements -/

lemma moreNamesRule_faithful (hg : g.Faithful) (ts : List Token) : (moreNamesRule g).Ensures
    (fun bs rest => Reads ts rest (bs.map fun b => .name b.name)) ts := by
  refine ensures_eat_bind (fun hcomma => ?_) (fun _ => .pure (Reads.refl ts))
  refine ensures_binder_bind fun hname => (hg.moreNames _).bind fun bs rest _ hbs => .pure ?_
  exact (((Reads.refl ts).skip hcomma rfl).take hname).append hbs

lemma localVars_faithful (hg : g.Faithful) (pos : Position) (ts : List Token) :
    (localVars g pos).Ensures (fun s rest => Reads ts rest s.contents ∧ s.Grammatical ∧
      s.isExit = false) ts := by
  refine ensures_binder_bind fun hname => (moreNamesRule_faithful hg _).bind fun bs mid _ hbs => ?_
  have hnames := ((Reads.refl ts).take hname).append hbs
  have hrest : ∀ values rest, Reads mid rest (exprsContents values) →
      (∀ e ∈ values, e.Grammatical) →
      (Pure.pure (.localVars (⟨(front ts).lexeme, (front ts).pos⟩ :: bs) values pos) :
        Parser RawStmt).Ensures (fun s rest => Reads ts rest s.contents ∧ s.Grammatical ∧
          s.isExit = false) rest := by
    intro values rest hread hvalues
    exact .pure ⟨hnames.append hread, .of_children (List.cons_ne_nil _ _)
      (List.forall_mem_map.2 hvalues), rfl⟩
  refine ensures_eat_bind (fun hassign => ?_) (fun _ => hrest [] _ (Reads.refl mid) nofun)
  refine (exprsRule_faithful hg _).bind fun values rest _ hvalues => ?_
  exact hrest values rest (((Reads.refl mid).skip hassign rfl).append hvalues.1) hvalues.2.1

lemma localFunction_faithful (hg : g.Faithful) (pos : Position) (ts : List Token) :
    (localFunction g pos).Ensures (fun s rest => Reads ts rest s.contents ∧ s.Grammatical ∧
      s.isExit = false) ts := by
  refine ensures_binder_bind fun hname => (function_faithful_nil hg _ _).bind fun f rest _ hf => ?_
  refine .pure ⟨((Reads.refl ts).take hname).append hf.1, .of_children trivial ?_, rfl⟩
  exact List.forall_mem_singleton.2 hf.2

lemma pathRule_faithful (hg : g.Faithful) (pos : Position) (e : RawExpr) (ts₀ ts : List Token)
    (hreads : Reads ts₀ ts e.contents) (he : e.Grammatical) (hpath : e.isPath) :
    (pathRule g pos e).Ensures (fun x rest => Reads ts₀ rest x.1.contents ∧ x.1.Grammatical ∧
      x.1.isPath) ts := by
  have hmember : ∀ name, (Expr.member e name pos).Grammatical := fun name =>
    .of_children (Expr.isHead_of_isPath hpath) (List.forall_mem_singleton.2 he)
  refine ensures_eat_bind (fun hdot => ?_) fun _ => ensures_eat_bind (fun hcolon => ?_) fun _ => ?_
  · refine ensures_ident_bind fun hname => ?_
    exact hg.path pos _ _ _ ((hreads.skip hdot rfl).take hname) (hmember _) hpath
  · refine ensures_ident_bind fun hname => ?_
    exact .pure ⟨(hreads.skip hcolon rfl).take hname, hmember _, hpath⟩
  · exact .pure ⟨hreads, he, hpath⟩

/-- The parameters that are written in a function statement are those of its list: of them only a `self`
in front of the list has the place of the statement. -/
lemma writtenParams_eq {ts : List Token} {pos : Position} {params : List Binder} (isMethod : Bool)
    (hpos : pos ∉ ts.map Token.pos) (hplaces : ∀ b ∈ params, b.pos ∈ ts.map Token.pos) :
    writtenParams pos ((if isMethod then [⟨"self", pos⟩] else []) ++ params) = params := by
  cases isMethod with
  | true => exact if_pos rfl
  | false =>
    cases params with
    | nil => rfl
    | cons b bs =>
      refine if_neg ?_
      rintro rfl
      exact hpos (hplaces _ List.mem_cons_self)

/-- A function statement stands at its keyword, where no parameter stands. -/
lemma functionDecl_faithful (hg : g.Faithful) (ts : List Token)
    (hkeyword : (front ts).kind = .kwFunction) :
    (functionDecl g (front ts).pos).Ensures (fun s rest => Reads ts rest s.contents ∧
      s.Grammatical ∧ s.isExit = false) ts.tail := by
  have hbehind := (Reads.refl ts).skip hkeyword rfl
  refine ensures_binder_bind fun hname => ?_
  refine (pathRule_faithful hg _ (.name _ _) _ _ (hbehind.take hname) (.of_children trivial nofun) rfl).bind ?_
  rintro ⟨target, isMethod⟩ mid hmid ⟨hread, htarget, hpath⟩
  refine (function_faithful hg (front ts).pos _ mid).bind ?_
  rintro f rest - ⟨params, variadic, body, rfl, hbody, hfread, hplaces⟩
  refine .pure ⟨(hread.append hfread).congr fun hnodup => ?_, .of_children hpath ?_, rfl⟩
  · have hpos : (front ts).pos ∉ mid.map Token.pos := by
      cases ts with
      | nil => cases hkeyword
      | cons t ts =>
        have hsub : mid.map Token.pos ⊆ ts.map Token.pos :=
          ((hmid.trans (List.tail_suffix _)).map _).subset
        exact fun hmem => (List.nodup_cons.1 hnodup).1 (hsub hmem)
    rw [Stmt.contents, writtenParams_eq isMethod hpos hplaces]
  · refine List.forall_mem_cons.2 ⟨htarget, List.forall_mem_singleton.2 ?_⟩
    exact .of_children trivial (List.forall_mem_singleton.2 hbody)

lemma alternativeRule_faithful (hg : g.Faithful) (ts : List Token) : (alternativeRule g).Ensures
    (fun a rest => Reads ts rest a.contents ∧ a.Grammatical) ts := by
  refine ensures_eat_bind (fun helseif => ?_) fun _ => ensures_eat_bind (fun helse => ?_) fun _ => ?_
  · refine (hg.expr 0 _).bind fun condition mid _ hcondition => ensures_expect_bind fun hthen => ?_
    refine (block_faithful hg _).bind fun body mid' _ hbody => ?_
    refine (hg.alternative _).bind fun a rest _ ha => .pure ⟨?_, ?_⟩
    · exact (((Reads.refl ts).skip helseif rfl).append hcondition.1).skip hthen rfl
        |>.append (hbody.1.append ha.1)
    · exact List.forall_mem_cons.2 ⟨hcondition.2.1, List.forall_mem_cons.2 ⟨hbody.2, ha.2⟩⟩
  · refine (block_faithful hg _).bind fun body rest _ hbody => .pure ⟨?_, ?_⟩
    · exact ((Reads.refl ts).skip helse rfl).append hbody.1
    · exact List.forall_mem_singleton.2 hbody.2
  · exact .pure ⟨Reads.refl ts, nofun⟩

lemma conditional_faithful (hg : g.Faithful) (pos : Position) (ts : List Token) :
    (conditional g pos).Ensures (fun s rest => Reads ts rest s.contents ∧ s.Grammatical ∧
      s.isExit = false) ts := by
  refine (hg.expr 0 _).bind fun condition mid _ hcondition => ensures_expect_bind fun hthen => ?_
  refine (block_faithful hg _).bind fun body mid' _ hbody => ?_
  refine (alternativeRule_faithful hg _).bind fun a rest _ ha => ensures_expect_bind fun hend => ?_
  refine .pure ⟨?_, .of_children trivial ?_, rfl⟩
  · exact ((hcondition.1.skip hthen rfl).append (hbody.1.append ha.1)).skip hend rfl
  · exact List.forall_mem_cons.2 ⟨hcondition.2.1, List.forall_mem_cons.2 ⟨hbody.2, ha.2⟩⟩

lemma forLoop_faithful (hg : g.Faithful) (pos : Position) (ts : List Token) :
    (forLoop g pos).Ensures (fun s rest => Reads ts rest s.contents ∧ s.Grammatical ∧
      s.isExit = false) ts := by
  refine ensures_binder_bind fun hname => ?_
  have hvar := (Reads.refl ts).take hname
  refine ensures_eat_bind (fun hassign => ?_) (fun _ => ?_)
  · refine (hg.expr 0 _).bind fun start mid _ hstart => ensures_expect_bind fun hcomma => ?_
    refine (hg.expr 0 _).bind fun limit mid' _ hlimit => ?_
    -- what is read behind the step
    have hrest : ∀ step mid'', Reads mid' mid'' (optionContents step) →
        (∀ e ∈ step, e.Grammatical) → (do
          let _ ← expect .kwDo
          let body ← block g
          let _ ← expect .kwEnd
          return Stmt.numericFor ⟨(front ts).lexeme, (front ts).pos⟩ start limit step body pos :
            Parser RawStmt).Ensures (fun s rest => Reads ts rest s.contents ∧ s.Grammatical ∧
              s.isExit = false) mid'' := by
      intro step mid'' hstepread hstep
      refine ensures_expect_bind fun hdo => (block_faithful hg _).bind fun body rest _ hbody => ?_
      refine ensures_expect_bind fun hend => .pure ⟨?_, .of_children trivial ?_, rfl⟩
      · exact ((hvar.skip hassign rfl).append (hstart.1.append ((Reads.refl mid).skip hcomma rfl
          |>.append (hlimit.1.append ((hstepread.skip hdo rfl).append hbody.1))))).skip hend rfl
      · refine List.forall_mem_cons.2 ⟨hstart.2.1, List.forall_mem_cons.2 ⟨hlimit.2.1, ?_⟩⟩
        refine List.forall_mem_append.2 ⟨?_, List.forall_mem_singleton.2 hbody.2⟩
        exact List.forall_mem_map.2 fun e he => hstep e (Option.mem_toList.1 he)
    refine ensures_eat_bind (fun hcomma' => ?_) (fun _ => hrest none _ (Reads.refl mid') nofun)
    refine (hg.expr 0 _).bind fun step mid'' _ hstep => hrest (some step) mid'' ?_ ?_
    · exact ((Reads.refl mid').skip hcomma' rfl).append hstep.1
    · rintro e ⟨⟩
      exact hstep.2.1
  · refine (moreNamesRule_faithful hg _).bind fun bs mid _ hbs => ensures_expect_bind fun hin => ?_
    refine (hg.exprs _).bind fun values mid' _ hvalues => ensures_expect_bind fun hdo => ?_
    refine (block_faithful hg _).bind fun body rest _ hbody => ensures_expect_bind fun hend => ?_
    refine .pure ⟨?_, .of_children ⟨List.cons_ne_nil _ _, hvalues.2.2⟩ ?_, rfl⟩
    · exact (((hvar.append hbs).skip hin rfl).append
        ((hvalues.1.skip hdo rfl).append hbody.1)).skip hend rfl
    · refine List.forall_mem_append.2 ⟨List.forall_mem_map.2 hvalues.2.1, ?_⟩
      exact List.forall_mem_singleton.2 hbody.2

lemma moreTargetsRule_faithful (hg : g.Faithful) (ts : List Token) : (moreTargetsRule g).Ensures
    (fun es rest => Reads ts rest (exprsContents es) ∧ ∀ e ∈ es, e.Grammatical) ts := by
  refine ensures_eat_bind (fun hcomma => ?_) (fun _ => .pure ⟨Reads.refl ts, nofun⟩)
  refine (suffixed_faithful hg _).bind fun e mid _ he => (hg.moreTargets mid).bind fun es rest _ hes => ?_
  refine .pure ⟨?_, List.forall_mem_cons.2 ⟨he.2.1, hes.2⟩⟩
  exact (((Reads.refl ts).skip hcomma rfl).append he.1).append hes.1

/-- What can be assigned to passes the check, and nothing else does. -/
lemma ensures_checkAssignable (e : RawExpr) (ts : List Token) :
    (checkAssignable e).Ensures (fun _ rest => rest = ts ∧ e.isAssignable) ts :=
  .ite (fun h => .pure ⟨rfl, h⟩) fun _ => ensures_failAt _ _

lemma ensures_checkAssignables (es : List RawExpr) (ts : List Token) :
    (es.forM checkAssignable).Ensures (fun _ rest => rest = ts ∧ ∀ e ∈ es, e.isAssignable) ts := by
  induction es with
  | nil => exact .pure ⟨rfl, nofun⟩
  | cons e es ih =>
    refine (ensures_checkAssignable e ts).bind ?_
    rintro - mid - ⟨rfl, he⟩
    exact ih.mono fun _ rest _ hes => ⟨hes.1, List.forall_mem_cons.2 ⟨he, hes.2⟩⟩

lemma exprStmt_faithful (hg : g.Faithful) (pos : Position) (ts : List Token) :
    (exprStmt g pos).Ensures (fun s rest => Reads ts rest s.contents ∧ s.Grammatical ∧
      s.isExit = false) ts := by
  refine (suffixed_faithful hg ts).bind ?_
  rintro first mid - ⟨hread, hfirst, -⟩
  refine ensures_peek_bind ?_
  split
  · next op hop =>
    refine ensures_advance_bind ((ensures_checkAssignable first _).bind ?_)
    rintro - _ - ⟨rfl, hassignable⟩
    refine (hg.expr 0 _).bind fun value rest _ hvalue => ?_
    have hk := BinaryOp.kind_of_ofAssignment? hop
    refine .pure ⟨?_, .of_children ⟨hk ▸ hop, hassignable⟩ ?_, rfl⟩
    · have hcontents : op.assignment.contents (front mid).lexeme = [.operator op.assignment] := by
        rw [hk] at hop
        cases op <;> first | rfl | cases hop
      have := (hread.take hk).append hvalue.1
      rw [hcontents] at this
      simpa [Stmt.contents] using this
    · exact List.forall_mem_cons.2 ⟨hfirst, List.forall_mem_singleton.2 hvalue.2.1⟩
  · refine .ite (fun _ => ?_) fun _ => .ite (fun hcall => ?_) fun _ => ensures_failAt _ _
    · refine (moreTargetsRule_faithful hg _).bind fun targets mid' _ htargets => ?_
      refine ensures_expect_bind fun hassign => (ensures_checkAssignables (first :: targets) _).bind ?_
      rintro - _ - ⟨rfl, hassignable⟩
      refine (hg.exprs _).bind fun values rest _ hvalues => ?_
      refine .pure ⟨((hread.append htargets.1).skip hassign rfl).append hvalues.1,
        .of_children ⟨List.cons_ne_nil _ _, hvalues.2.2, hassignable⟩ ?_, rfl⟩
      refine List.forall_mem_append.2 ⟨List.forall_mem_map.2 ?_, List.forall_mem_map.2 hvalues.2.1⟩
      exact List.forall_mem_cons.2 ⟨hfirst, htargets.2⟩
    · exact .pure ⟨hread, .of_children hcall (List.forall_mem_singleton.2 hfirst), rfl⟩

/-- A statement that leaves its block starts with its keyword. -/
lemma stmt_faithful (hg : g.Faithful) (ts : List Token) : (stmt g).Ensures (fun s rest =>
    Reads ts rest s.contents ∧ s.Grammatical ∧
      (s.isExit = true → (front ts).kind = .kwReturn ∨ (front ts).kind = .kwBreak)) ts := by
  -- the statements that do not leave their block
  have hstays : ∀ {P : Parser RawStmt} {mid : List Token}, P.Ensures (fun s rest =>
      Reads mid rest s.contents ∧ s.Grammatical ∧ s.isExit = false) mid → Reads ts mid [] →
      P.Ensures (fun s rest => Reads ts rest s.contents ∧ s.Grammatical ∧
        (s.isExit = true → (front ts).kind = .kwReturn ∨ (front ts).kind = .kwBreak)) mid := by
    intro P mid hP hread
    refine hP.mono fun s rest _ hs => ⟨hread.append hs.1, hs.2.1, fun hexit => ?_⟩
    rw [hs.2.2] at hexit
    cases hexit
  refine ensures_peek_bind ?_
  split
  · next hlocal =>
    have hread := (Reads.refl ts).skip hlocal rfl
    refine ensures_advance_bind (ensures_eat_bind (fun hfunction => ?_) fun _ => ?_)
    · exact hstays (localFunction_faithful hg _ _) (hread.skip hfunction rfl)
    · exact hstays (localVars_faithful hg _ _) hread
  · next hfunction =>
    refine ensures_advance_bind ((functionDecl_faithful hg ts hfunction).mono fun s rest _ hs => ?_)
    exact ⟨hs.1, hs.2.1, fun hexit => by rw [hs.2.2] at hexit; cases hexit⟩
  · next hdo =>
    refine ensures_advance_bind ((block_faithful hg _).bind fun body rest _ hbody => ?_)
    refine ensures_expect_bind fun hend => .pure ⟨?_, .of_children trivial ?_, nofun⟩
    · exact (((Reads.refl ts).skip hdo rfl).append hbody.1).skip hend rfl
    · exact List.forall_mem_singleton.2 hbody.2
  · next hif =>
    exact ensures_advance_bind (hstays (conditional_faithful hg _ _) ((Reads.refl ts).skip hif rfl))
  · next hwhile =>
    refine ensures_advance_bind ((hg.expr 0 _).bind fun condition mid _ hcondition => ?_)
    refine ensures_expect_bind fun hdo => (block_faithful hg _).bind fun body rest _ hbody => ?_
    refine ensures_expect_bind fun hend => .pure ⟨?_, .of_children trivial ?_, nofun⟩
    · exact (((((Reads.refl ts).skip hwhile rfl).append hcondition.1).skip hdo rfl).append
        hbody.1).skip hend rfl
    · exact List.forall_mem_cons.2 ⟨hcondition.2.1, List.forall_mem_singleton.2 hbody.2⟩
  · next hrepeat =>
    refine ensures_advance_bind ((block_faithful hg _).bind fun body mid _ hbody => ?_)
    refine ensures_expect_bind fun huntil => (hg.expr 0 _).bind fun condition rest _ hcondition => ?_
    refine .pure ⟨?_, .of_children trivial ?_, nofun⟩
    · exact ((((Reads.refl ts).skip hrepeat rfl).append hbody.1).skip huntil rfl).append hcondition.1
    · exact List.forall_mem_cons.2 ⟨hbody.2, List.forall_mem_singleton.2 hcondition.2.1⟩
  · next hfor =>
    exact ensures_advance_bind (hstays (forLoop_faithful hg _ _) ((Reads.refl ts).skip hfor rfl))
  · next hreturn =>
    have hread := (Reads.refl ts).skip hreturn rfl
    refine ensures_advance_bind (ensures_kind_bind (.ite (fun _ => ?_) fun _ => ?_))
    · exact .pure ⟨hread, .of_children trivial nofun, fun _ => .inl hreturn⟩
    · refine (hg.exprs _).bind fun values rest _ hvalues => ?_
      refine .pure ⟨hread.append hvalues.1, .of_children trivial ?_, fun _ => .inl hreturn⟩
      exact List.forall_mem_map.2 hvalues.2.1
  · next hbreak =>
    refine ensures_advance_bind (.pure ⟨(Reads.refl ts).skip hbreak rfl, ?_, fun _ => .inr hbreak⟩)
    exact .of_children trivial nofun
  · exact hstays (exprStmt_faithful hg _ _) (Reads.refl ts)

/-- A return or a break ends the statements, so none stands before another statement. -/
lemma stmtsRule_faithful (hg : g.Faithful) (ts : List Token) : (stmtsRule g).Ensures
    (fun ss rest => Reads ts rest (stmtsContents ss) ∧ (∀ s ∈ ss, s.Grammatical) ∧
      ∀ s ∈ ss.dropLast, s.isExit = false) ts := by
  refine ensures_kind_bind (.ite (fun _ => .pure ⟨Reads.refl ts, nofun, nofun⟩) fun _ => ?_)
  refine (stmt_faithful hg ts).bind fun s mid _ hs => ?_
  -- with and without a semicolon
  have hrest : ∀ mid', Reads ts mid' s.contents →
      (if (front ts).kind = .kwReturn ∨ (front ts).kind = .kwBreak then Pure.pure [s]
        else g.stmts >>= fun ss => Pure.pure (s :: ss) : Parser (List RawStmt)).Ensures
      (fun ss rest => Reads ts rest (stmtsContents ss) ∧ (∀ s ∈ ss, s.Grammatical) ∧
        ∀ s ∈ ss.dropLast, s.isExit = false) mid' := by
    intro mid' hread
    refine .ite (fun _ => .pure ⟨?_, List.forall_mem_singleton.2 hs.2.1, nofun⟩) fun hstays => ?_
    · simpa [stmtsContents] using hread
    · refine (hg.stmts mid').bind fun ss rest _ hss => ?_
      refine .pure ⟨hread.append hss.1, List.forall_mem_cons.2 ⟨hs.2.1, hss.2.1⟩, fun s' hs' => ?_⟩
      cases ss with
      | nil => cases hs'
      | cons s₁ ss =>
        rcases List.mem_cons.1 hs' with rfl | hs'
        · exact Bool.eq_false_iff.2 fun hexit => hstays (hs.2.2 hexit)
        · exact hss.2.2 s' hs'
  exact ensures_eat_bind (fun hsemicolon => hrest _ (hs.1.skip hsemicolon rfl)) fun _ => hrest _ hs.1

/-! ### Levels -/

/-- A grammar made from a faithful one is faithful. -/
lemma rules_faithful (hg : g.Faithful) : (rules g).Faithful where
  stmts := stmtsRule_faithful hg
  alternative := alternativeRule_faithful hg
  expr := exprRule_faithful hg
  operators := operatorsRule_faithful hg
  suffixes := suffixesRule_faithful hg
  exprs := exprsRule_faithful hg
  moreExprs := moreExprsRule_faithful hg
  moreTargets := moreTargetsRule_faithful hg
  moreNames := moreNamesRule_faithful hg
  path := pathRule_faithful hg
  params := paramsRule_faithful hg
  items := itemsRule_faithful hg

lemma ensures_tooDeep {α : Type} {Φ : α → List Token → Prop} {ts : List Token} :
    (tooDeep : Parser α).Ensures Φ ts :=
  ensures_here_bind (ensures_failAt _ _)

lemma bottom_faithful : bottom.Faithful where
  stmts _ := ensures_tooDeep
  alternative _ := ensures_tooDeep
  expr _ _ := ensures_tooDeep
  operators _ _ _ _ _ _ _ _ := ensures_tooDeep
  suffixes _ _ _ _ _ _ := ensures_tooDeep
  exprs _ := ensures_tooDeep
  moreExprs _ := ensures_tooDeep
  moreTargets _ := ensures_tooDeep
  moreNames _ := ensures_tooDeep
  path _ _ _ _ _ _ _ := ensures_tooDeep
  params _ := ensures_tooDeep
  items _ := ensures_tooDeep

/-- **Every level of the grammar** is faithful. -/
theorem level_faithful (n : Nat) : (level n).Faithful := by
  induction n with
  | zero => exact bottom_faithful
  | succ n ih => exact rules_faithful ih

end Grammar

/-- **The tree of a complete list of tokens** has the contents of the tokens up to the end of the input,
and it is grammatical. -/
theorem parseChunk_faithful {tokens : List Token} {body : RawBlock}
    (h : parseChunk tokens = .ok body) :
    body.Grammatical ∧ ∃ rest, Reads tokens rest body.contents ∧ (front rest).kind = .eof := by
  have hchunk : (chunk (.level tokens.length)).Ensures (fun b rest => b.Grammatical ∧
      Reads tokens rest b.contents ∧ (front rest).kind = .eof) tokens := by
    refine (Grammar.block_faithful (Grammar.level_faithful _) tokens).bind fun b rest _ hb => ?_
    refine ensures_peek_bind (.ite (fun heof => ?_) fun _ => ensures_failAt _ _)
    exact .pure ⟨hb.2, hb.1, heof⟩
  rw [parseChunk] at h
  cases hrun : chunk (.level tokens.length) tokens with
  | error e => rw [hrun] at h; cases h
  | ok x =>
    rw [hrun] at h
    cases h
    obtain ⟨-, hbody, hread⟩ := hchunk x.1 x.2 hrun
    exact ⟨hbody, x.2, hread⟩

end ScriptCore
