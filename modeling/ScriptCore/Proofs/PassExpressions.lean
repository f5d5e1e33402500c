import ScriptCore.Proofs.PassRuns

set_option relaxedAutoImplicit false
set_option autoImplicit false

/-!
# Expressions in one pass

The procedures of the single pass follow the rules of the grammar. Behind a token they have taken, they may call
procedures that need one level less, so all calls that are nested in one another are told apart by the tokens
that are left. Here are the procedures for expressions, and what is assumed of the ones they call.

## Main definitions

* `ScriptCore.SinglePass.Left` — how many tokens are left at an index.
* `ScriptCore.SinglePass.PassesFollow` — the procedures follow a grammar where few tokens are left.

## Main results

* `ScriptCore.SinglePass.exprRule_follows`, `ScriptCore.SinglePass.suffixesRule_follows` and others — one lemma
  for each procedure.
-/

namespace ScriptCore.SinglePass

/-- **At most `n` tokens are left** at an index, and one at least. -/
structure Left (tokens : List Token) (n i : ℕ) : Prop where
  lt : i < tokens.length
  le : tokens.length ≤ i + n

lemma Left.later {tokens : List Token} {n i j : ℕ} (h : Left tokens n i) (hj : i ≤ j)
    (hlt : j < tokens.length) : Left tokens n j := by
  obtain ⟨-, hle⟩ := h
  exact ⟨hlt, by omega⟩

lemma Left.succ {tokens : List Token} {n i : ℕ} (h : Left tokens n i) : Left tokens (n + 1) i :=
  ⟨h.lt, h.le.trans (Nat.le_succ _)⟩

/-- Behind a token fewer are left. -/
lemma Left.behind {tokens : List Token} {n i j : ℕ} (h : Left tokens (n + 1) i) (hj : i + 1 ≤ j)
    (hlt : j < tokens.length) : Left tokens n j := by
  obtain ⟨-, hle⟩ := h
  exact ⟨hlt, by omega⟩

/-- **The procedures follow a grammar** where at most `n` tokens are left. Procedures for expressions take a
token at least. -/
structure PassesFollow (tokens : List Token) (n : ℕ) (g : Grammar) (g' : Passes) : Prop where
  stmts : ∀ i s, Left tokens n i → Follows tokens i (fun ss => bindStmts ss s) i s g.stmts g'.stmts
  alternative : ∀ i s, Left tokens n i →
    Follows tokens i (fun a => bindAlternative a s) i s g.alternative g'.alternative
  expr : ∀ limit i s, Left tokens n i →
    Follows tokens (i + 1) (fun e => bindExpr e s) i s (g.expr limit) (g'.expr limit)
  /-- The left operand is bound from the scopes `s` on, and so is the result. -/
  operators : ∀ limit e i s, Left tokens n i →
    Follows tokens i (fun r => bindExpr r s) i (bindExpr e s).2 (g.operators limit e)
      (g'.operators limit (bindExpr e s).1)
  suffixes : ∀ e i s, Left tokens n i →
    Follows tokens i (fun r => bindExpr r s) i (bindExpr e s).2 (g.suffixes e)
      (g'.suffixes (bindExpr e s).1)
  exprs : ∀ i s, Left tokens n i → Follows tokens (i + 1) (fun es => bindExprs es s) i s g.exprs g'.exprs
  moreExprs : ∀ i s, Left tokens n i →
    Follows tokens i (fun es => bindExprs es s) i s g.moreExprs g'.moreExprs
  moreTargets : ∀ i s, Left tokens n i →
    Follows tokens i (fun es => bindExprs es s) i s g.moreTargets g'.moreTargets
  moreLocals : ∀ i s, Left tokens n i →
    Follows tokens i (fun bs => ((bs, (bs.mapM Scopes.declare s).1), (bs.mapM Scopes.declare s).2)) i s
      g.moreNames g'.moreLocals
  moreNames : ∀ i s, Left tokens n i → Follows tokens i (fun bs => (bs, s)) i s g.moreNames g'.moreNames
  path : ∀ pos e i s, Left tokens n i →
    Follows tokens i (fun r => (((bindExpr r.1 s).1, r.2), (bindExpr r.1 s).2)) i (bindExpr e s).2
      (g.path pos e) (g'.path pos (bindExpr e s).1)
  params : ∀ i s, Left tokens n i →
    Follows tokens (i + 1) (fun r => (((r.1.mapM Scopes.introduce s).1, r.2), (r.1.mapM Scopes.introduce s).2))
      i s g.params g'.params
  items : ∀ i s, Left tokens n i → Follows tokens i (fun is => bindItems is s) i s g.items g'.items

/-- Binds the names of a function in the scope that is open. -/
def bindSignature : RawFunction → Binding (Function Reference LocalId)
  | .mk params variadic body pos => do
    let params ← params.mapM Scopes.introduce
    let body ← bindBody body
    return .mk params variadic body pos

section Rules

variable {tokens : List Token} (ht : Complete tokens) {n : ℕ} {g : Grammar} {g' : Passes}
  (hg : PassesFollow tokens n g g') {i : ℕ} {s : Scopes}
include ht hg

lemma primary_follows (hi : Left tokens (n + 1) i) :
    Follows tokens (i + 1) (fun e => bindExpr e s) i s (Grammar.primary g) (primary g') := by
  have hlt := hi.lt
  refine follows_peek_bind hlt ?_
  cases hk : tokens[i].kind with
  | ident =>
    refine follows_advance_bind hi.lt ht (by simp [hk]) fun hlt => ?_
    refine follows_nameExpr_bind (.pure ?_ le_rfl rfl)
    exact hlt
  | lParen =>
    refine follows_advance_bind hi.lt ht (by simp [hk]) fun hlt => ?_
    refine (hg.expr 0 _ _ (hi.behind le_rfl hlt)).bind fun e j hj hlo hlt => ?_
    refine follows_expect_bind hlt ht (by decide) fun _ hlt => ?_
    refine .pure hlt (by omega) ?_
    rw [bindExpr]
    rfl
  | _ => exact follows_failAt hi.lt (by simp) (by simp) _

lemma table_follows (hi : Left tokens (n + 1) i) :
    Follows tokens (i + 1) (fun e => bindExpr e s) i s (Grammar.table g) (table g') := by
  refine follows_expect_bind hi.lt ht (by decide) fun _ hlt => ?_
  refine (hg.items _ _ (hi.behind le_rfl hlt)).bind fun items j hj hlo hlt => ?_
  refine follows_expect_bind hlt ht (by decide) fun _ hlt => ?_
  refine .pure hlt (by omega) ?_
  rw [bindExpr]
  rfl

lemma args_follows (hi : Left tokens (n + 1) i) :
    Follows tokens (i + 1) (fun es => bindExprs es s) i s (Grammar.args g) (args g') := by
  have hlt := hi.lt
  refine follows_peek_bind hlt ?_
  cases hk : tokens[i].kind with
  | string =>
    refine follows_advance_bind hi.lt ht (by simp [hk]) fun hlt => ?_
    refine .pure hlt le_rfl ?_
    rw [bindExprs, bindExpr, bindExprs]
    rfl
  | lBrace =>
    refine (table_follows ht hg hi).bind fun e j hj hlo hlt => ?_
    refine .pure hlt hlo ?_
    rw [bindExprs, bindExprs]
    rfl
  | _ =>
    refine follows_expect_bind hi.lt ht (by decide) fun _ hlt => ?_
    refine follows_eat_bind hlt ht (by decide) (fun _ hlt => ?_) fun _ => ?_
    · refine .pure hlt (by omega) ?_
      rw [bindExprs]
      rfl
    · refine (hg.exprs _ _ (hi.behind le_rfl hlt)).bind fun es j hj hlo hlt => ?_
      refine follows_expect_bind hlt ht (by decide) fun _ hlt => ?_
      exact .pure hlt (by omega) rfl

/-- The arguments of a call, and what follows it. The callee is bound from the scopes `s` on. -/
lemma call_follows (callee : RawExpr) (isMethod : Bool) (pos : Position) (hi : Left tokens (n + 1) i) :
    Follows tokens i (fun r => bindExpr r s) i (bindExpr callee s).2
      (Grammar.args g >>= fun es => g.suffixes (.call callee es isMethod pos))
      (args g' >>= fun es => g'.suffixes (.call (bindExpr callee s).1 es isMethod pos)) := by
  refine (args_follows ht hg hi).bind fun es j hj hlo hlt => ?_
  have hrest := hg.suffixes (.call callee es isMethod pos) j s (hi.behind hlo hlt)
  rw [bindExpr] at hrest
  exact hrest.mono hj

/-- The object of a suffix is bound from the scopes `s` on, and so is the result. -/
lemma suffixesRule_follows (e : RawExpr) (hi : Left tokens (n + 1) i) :
    Follows tokens i (fun r => bindExpr r s) i (bindExpr e s).2 (Grammar.suffixesRule g e)
      (suffixesRule g' (bindExpr e s).1) := by
  have hlt := hi.lt
  refine follows_peek_bind hlt ?_
  cases hk : tokens[i].kind with
  | dot =>
    refine follows_advance_bind hi.lt ht (by simp [hk]) fun hlt => ?_
    refine follows_ident_bind hlt ht fun _ hlt => ?_
    have hrest := hg.suffixes (.member e tokens[i + 1].lexeme tokens[i].pos) (i + 1 + 1) s
      (hi.behind (by omega) hlt)
    rw [bindExpr] at hrest
    exact hrest.mono (by omega)
  | lBracket =>
    refine follows_advance_bind hi.lt ht (by simp [hk]) fun hlt => ?_
    refine (hg.expr 0 _ _ (hi.behind le_rfl hlt)).bind fun key j hj hlo hlt => ?_
    refine follows_expect_bind hlt ht (by decide) fun _ hlt => ?_
    have hrest := hg.suffixes (.index e key tokens[i].pos) (j + 1) s (hi.behind (by omega) hlt)
    rw [bindExpr] at hrest
    exact hrest.mono (by omega)
  | colon =>
    refine follows_advance_bind hi.lt ht (by simp [hk]) fun hlt => ?_
    refine follows_ident_bind hlt ht fun _ hlt => ?_
    have hcall := call_follows ht hg (s := s) (.member e tokens[i + 1].lexeme tokens[i].pos) true tokens[i].pos
      (hi.later (by omega) hlt)
    rw [bindExpr] at hcall
    exact hcall.mono (by omega)
  | lParen | string | lBrace =>
    exact call_follows ht hg e false _ hi
  | _ => exact .pure hi.lt le_rfl rfl

lemma suffixed_follows (hi : Left tokens (n + 1) i) :
    Follows tokens (i + 1) (fun e => bindExpr e s) i s (Grammar.suffixed g) (suffixed g') :=
  (primary_follows ht hg hi).bind fun e _ hj hlo hlt =>
    (suffixesRule_follows ht hg e (hi.later hj hlt)).mono hlo

omit ht in
/-- Statements in the scope that is open. -/
lemma body_follows (hi : Left tokens n i) :
    Follows tokens i (fun b => bindBody b s) i s (Grammar.block g) (body g') := by
  refine follows_here_bind hi.lt ?_
  refine (hg.stmts _ _ hi).bind fun ss j hj hlo hlt => ?_
  refine .pure hlt hlo ?_
  rw [bindBody]
  rfl

omit ht in
/-- Statements in a scope of their own. -/
lemma block_follows (hi : Left tokens n i) :
    Follows tokens i (fun b => bindBlock b s) i s (Grammar.block g) (block g') := by
  have hbind : (fun b => bindBlock b s) = fun b =>
      ((bindBody b (Scopes.enter s).2).1, (Scopes.exit (bindBody b (Scopes.enter s).2).2).2) := by
    funext b
    obtain ⟨pos, ss⟩ := b
    rw [bindBlock, bindBody]
    rfl
  rw [hbind]
  exact (body_follows hg hi).within fun _ => .exit

lemma paramsRule_follows (hi : Left tokens (n + 1) i) :
    Follows tokens (i + 1) (fun r => (((r.1.mapM Scopes.introduce s).1, r.2), (r.1.mapM Scopes.introduce s).2))
      i s (Grammar.paramsRule g) (paramsRule g') := by
  refine follows_eat_bind hi.lt ht (by decide) (fun _ hlt => .pure hlt le_rfl rfl) fun _ => ?_
  refine follows_binder_bind hi.lt ht fun _ hlt => ?_
  refine follows_onScopes_bind (Scopes.flat_introduce _) ?_
  refine follows_eat_bind hlt ht (by decide) (fun _ hlt => ?_) fun _ => ?_
  · refine (hg.params _ _ (hi.behind (by omega) hlt)).bind fun r j hj hlo hlt => ?_
    obtain ⟨bs, variadic⟩ := r
    refine .pure hlt (by omega) ?_
    simp only [List.mapM_cons]
    rfl
  · refine .pure hlt le_rfl ?_
    simp only [List.mapM_cons, List.mapM_nil]
    rfl

/-- The receiver and the parameters are introduced one after the other, and the body is bound behind them. -/
lemma signature_follows (pos : Position) (receiver : List Binder) (hi : Left tokens (n + 1) i) :
    Follows tokens (i + 1) (fun f => bindSignature f s) i s (Grammar.function g pos receiver)
      (signature g' pos receiver) := by
  refine follows_onScopes_bind (.mapM Scopes.flat_introduce receiver) ?_
  refine follows_expect_bind hi.lt ht (by decide) fun _ hlt => ?_
  refine follows_kind_bind hlt ?_
  refine Follows.ite_bind (fun _ => .pure hlt le_rfl ?_)
    (fun _ => (paramsRule_follows ht hg (hi.later (by omega) hlt)).mono (by omega)) fun r j hj _ hlt => ?_
  · rfl
  obtain ⟨params, variadic⟩ := r
  refine follows_expect_bind hlt ht (by decide) fun _ hlt => ?_
  refine (body_follows hg (hi.behind (by omega) hlt)).bind fun b j hj hlo hlt => ?_
  refine follows_expect_bind hlt ht (by decide) fun _ hlt => ?_
  refine .pure hlt (by omega) ?_
  simp only [bindSignature, List.mapM_append]
  rfl

/-- **A function** is bound in a scope of its own, one function deeper. -/
lemma function_follows (pos : Position) (receiver : List Binder) (hi : Left tokens (n + 1) i) :
    Follows tokens (i + 1) (fun f => bindFunction f s) i s (Grammar.function g pos receiver)
      (function g' pos receiver) := by
  have hbind : (fun f => bindFunction f s) = fun f =>
      ((bindSignature f (Scopes.enterFunction s).2).1,
        (Scopes.exitFunction (bindSignature f (Scopes.enterFunction s).2).2).2) := by
    funext f
    obtain ⟨params, variadic, body, pos⟩ := f
    rw [bindFunction]
    rfl
  rw [hbind]
  exact (signature_follows ht hg pos receiver hi).within fun _ => .exitFunction

omit hg in
/-- A literal of one token. -/
lemma literal_follows {e : RawExpr} {e' : BoundExpr} (hlt : i < tokens.length) (hk : tokens[i].kind ≠ .eof)
    (h : bindExpr e s = (e', s)) :
    Follows tokens (i + 1) (fun e => bindExpr e s) i s (Parser.advance >>= fun _ => pure e)
      (advance >>= fun _ => pure e') :=
  follows_advance_bind hlt ht hk fun hlt => .pure hlt le_rfl h

/-- A numeral has a value, so that it is never refused. -/
lemma simple_follows (hi : Left tokens (n + 1) i) :
    Follows tokens (i + 1) (fun e => bindExpr e s) i s (Grammar.simple g) (simple g') := by
  have hlt := hi.lt
  refine follows_peek_bind hlt ?_
  cases hk : tokens[i].kind with
  | number =>
    cases hvalue : Numeral.literal? tokens[i].lexeme with
    | none =>
      -- the refusal of both parsers that is never reached
      exact absurd hvalue (ht.valued _ (List.getElem_mem hlt) hk)
    | some value =>
      refine literal_follows ht hlt (by simp [hk]) ?_
      rw [bindExpr]
      rfl
  | string | kwNil | kwTrue | kwFalse | ellipsis =>
    refine literal_follows ht hlt (by simp [hk]) ?_
    rw [bindExpr]
    rfl
  | lBrace =>
    exact table_follows ht hg hi
  | kwFunction =>
    refine follows_advance_bind hlt ht (by simp [hk]) fun hlt => ?_
    refine (function_follows ht hg _ [] (hi.later (by omega) hlt)).bind fun f j hj hlo hlt => ?_
    refine .pure hlt (by omega) ?_
    rw [bindExpr]
    rfl
  | _ => exact suffixed_follows ht hg hi

/-- The left operand is bound from the scopes `s` on, and so is the result. -/
lemma operatorsRule_follows (limit : ℕ) (e : RawExpr) (hi : Left tokens (n + 1) i) :
    Follows tokens i (fun r => bindExpr r s) i (bindExpr e s).2 (Grammar.operatorsRule g limit e)
      (operatorsRule g' limit (bindExpr e s).1) := by
  have hlt := hi.lt
  refine follows_peek_bind hlt ?_
  cases hop : BinaryOp.ofKind? tokens[i].kind with
  | none => exact .pure hlt le_rfl rfl
  | some op =>
    refine .ite (fun _ => ?_) fun _ => .pure hlt le_rfl rfl
    have hk : tokens[i].kind ≠ .eof := fun heof => by
      rw [heof] at hop
      cases hop
    refine follows_advance_bind hlt ht hk fun hlt => ?_
    refine (hg.expr _ _ _ (hi.behind le_rfl hlt)).bind fun right j hj hlo hlt => ?_
    have hrest := hg.operators limit (.binary op e right tokens[i].pos) j s (hi.behind (by omega) hlt)
    rw [bindExpr] at hrest
    exact hrest.mono (by omega)

lemma exprRule_follows (limit : ℕ) (hi : Left tokens (n + 1) i) :
    Follows tokens (i + 1) (fun e => bindExpr e s) i s (Grammar.exprRule g limit) (exprRule g' limit) := by
  have hlt := hi.lt
  refine follows_peek_bind hlt ?_
  cases hop : UnaryOp.ofKind? tokens[i].kind with
  | none =>
    exact (simple_follows ht hg hi).bind fun e _ hj hlo hlt =>
      (operatorsRule_follows ht hg limit e (hi.later hj hlt)).mono hlo
  | some op =>
    have hk : tokens[i].kind ≠ .eof := fun heof => by
      rw [heof] at hop
      cases hop
    refine follows_advance_bind hlt ht hk fun hlt => ?_
    refine (hg.expr _ _ _ (hi.behind le_rfl hlt)).bind fun operand j hj hlo hlt => ?_
    have hrest := operatorsRule_follows ht hg (s := s) limit (.unary op operand tokens[i].pos)
      (hi.later (by omega) hlt)
    rw [bindExpr] at hrest
    exact hrest.mono (by omega)

lemma moreExprsRule_follows (hi : Left tokens (n + 1) i) :
    Follows tokens i (fun es => bindExprs es s) i s (Grammar.moreExprsRule g) (moreExprsRule g') := by
  refine follows_eat_bind hi.lt ht (by decide) (fun _ hlt => ?_) fun _ => ?_
  · refine (hg.expr 0 _ _ (hi.behind le_rfl hlt)).bind fun e j hj hlo hlt => ?_
    refine (hg.moreExprs _ _ (hi.behind (by omega) hlt)).bind fun es j hj hlo hlt => ?_
    refine .pure hlt (by omega) ?_
    rw [bindExprs]
    rfl
  · refine .pure hi.lt le_rfl ?_
    rw [bindExprs]
    rfl

lemma exprsRule_follows (hi : Left tokens (n + 1) i) :
    Follows tokens (i + 1) (fun es => bindExprs es s) i s (Grammar.exprsRule g) (exprsRule g') := by
  refine (exprRule_follows ht hg 0 hi).bind fun e j hj hlo hlt => ?_
  refine (moreExprsRule_follows ht hg (hi.later hj hlt)).bind fun es j hj hlo hlt => ?_
  refine .pure hlt (by omega) ?_
  rw [bindExprs]
  rfl

/-- An item that is an expression only. -/
lemma positional_follows (hi : Left tokens (n + 1) i) :
    Follows tokens (i + 1) (fun is => bindItem is s) i s
      (Grammar.exprRule g 0 >>= fun e => pure (.positional e))
      (exprRule g' 0 >>= fun e => pure (.positional e)) := by
  refine (exprRule_follows ht hg 0 hi).bind fun e j hj hlo hlt => ?_
  refine .pure hlt hlo ?_
  rw [bindItem]
  rfl

/-- Behind a name stands another token, so that there is one to look at. -/
lemma item_follows (hi : Left tokens (n + 1) i) :
    Follows tokens (i + 1) (fun is => bindItem is s) i s (Grammar.item g) (item g') := by
  have hlt := hi.lt
  refine follows_peek_bind hlt ?_
  refine .ite (fun hk => ?_) fun _ => ?_
  · refine follows_advance_bind hlt ht (by simp [hk]) fun hlt => ?_
    refine (hg.expr 0 _ _ (hi.behind le_rfl hlt)).bind fun key j hj hlo hlt => ?_
    refine follows_expect_bind hlt ht (by decide) fun _ hlt => ?_
    refine follows_expect_bind hlt ht (by decide) fun _ hlt => ?_
    refine (hg.expr 0 _ _ (hi.behind (by omega) hlt)).bind fun value j hj hlo hlt => ?_
    refine .pure hlt (by omega) ?_
    rw [bindItem]
    rfl
  by_cases hk : tokens[i].kind = .ident
  · have hk' : tokens[i].kind ≠ .eof := by simp [hk]
    -- the token that is looked at ahead
    have hnext := ht.succ_lt hlt hk'
    simp only [hk, if_true, true_and]
    refine follows_nextIs_bind hnext (.ite (fun hassign => ?_) fun _ => positional_follows ht hg hi)
    have hassign' : tokens[i + 1].kind ≠ .eof := by simp [of_decide_eq_true hassign]
    refine follows_advance_bind hlt ht hk' fun _ => ?_
    refine follows_advance_bind hnext ht hassign' fun hlt => ?_
    refine (hg.expr 0 _ _ (hi.behind (by omega) hlt)).bind fun value j hj hlo hlt => ?_
    refine .pure hlt (by omega) ?_
    rw [bindItem]
    rfl
  · simp only [hk, if_false, false_and]
    exact (positional_follows ht hg hi).step rfl rfl le_rfl (.refl _)

lemma itemsRule_follows (hi : Left tokens (n + 1) i) :
    Follows tokens i (fun is => bindItems is s) i s (Grammar.itemsRule g) (itemsRule g') := by
  refine follows_kind_bind hi.lt ?_
  refine .ite (fun _ => .pure hi.lt le_rfl ?_) fun _ => ?_
  · rw [bindItems]
    rfl
  refine (item_follows ht hg hi).bind fun first j hj hlo hlt => ?_
  have hmore (j) (hlo : i + 1 ≤ j) (hlt : j < tokens.length) : Follows tokens i (fun is => bindItems is s) j
      (bindItem first s).2 (g.items >>= fun is => pure (first :: is))
      (g'.items >>= fun is => pure ((bindItem first s).1 :: is)) := by
    refine (hg.items _ _ (hi.behind hlo hlt)).bind fun is j hj hlo hlt => ?_
    refine .pure hlt (by omega) ?_
    rw [bindItems]
    rfl
  refine follows_eat_bind hlt ht (by decide) (fun _ hlt => hmore _ (by omega) hlt) fun _ => ?_
  refine follows_eat_bind hlt ht (by decide) (fun _ hlt => hmore _ (by omega) hlt) fun _ => ?_
  refine .pure hlt hj ?_
  rw [bindItems, bindItems]
  rfl

end Rules

end ScriptCore.SinglePass
