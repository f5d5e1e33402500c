import ScriptCore.Proofs.ParserRuns

set_option relaxedAutoImplicit false
set_option autoImplicit false

/-!
# Levels of the grammar

A level of the grammar refuses what is nested too deeply for it. What it accepts, every higher level
accepts with the same result: so it does not matter at which level some tokens are parsed.

## Main definitions

* `ScriptCore.Parser.Within` — one parser accepts what another one does.
* `ScriptCore.Grammar.Within` — the same of all parsers of two grammars.

## Main results

* `ScriptCore.Grammar.rules_within` — rules keep the relation.
* `ScriptCore.Grammar.level_within` — a higher level accepts what a lower one does.
-/

namespace ScriptCore

namespace Parser

variable {α γ : Type}

/-- **One parser accepts what another one does**, with the same result. -/
def Within (P Q : Parser α) : Prop := ∀ ts x, P ts = .ok x → Q ts = .ok x

namespace Within

variable {P Q : Parser α} {f f' : α → Parser γ}

@[refl]
lemma refl (P : Parser α) : P.Within P := fun _ _ h => h

lemma trans {R : Parser α} (hPQ : P.Within Q) (hQR : Q.Within R) : P.Within R :=
  fun ts x h => hQR ts x (hPQ ts x h)

/-- One parser behind another one. -/
lemma bind (hP : P.Within Q) (hf : ∀ a, (f a).Within (f' a)) : (P >>= f).Within (Q >>= f') := by
  intro ts x hrun
  rw [bind_run] at hrun ⊢
  cases hfirst : P ts with
  | error e => rw [hfirst] at hrun; cases hrun
  | ok y =>
    rw [hfirst] at hrun
    rw [hP ts y hfirst]
    exact hf y.1 y.2 x hrun

/-- The same parser in front. -/
lemma behind (P : Parser α) (hf : ∀ a, (f a).Within (f' a)) : (P >>= f).Within (P >>= f') :=
  bind (refl P) hf

/-- The same parser behind. -/
lemma before (hP : P.Within Q) (f : α → Parser γ) : (P >>= f).Within (Q >>= f) :=
  bind hP fun a => refl (f a)

lemma ite {c : Prop} [Decidable c] {P' Q' : Parser α} (hP : P.Within P') (hQ : Q.Within Q') :
    (if c then P else Q).Within (if c then P' else Q') := by
  split
  · exact hP
  · exact hQ

/-- What accepts nothing accepts no more than others. -/
lemma of_tooDeep (P : Parser α) : (Grammar.tooDeep : Parser α).Within P := fun _ _ h => nomatch h

end Within

end Parser

open ScriptCore.Parser

/-- **One grammar accepts what another one does.** -/
structure Grammar.Within (g g' : Grammar) : Prop where
  stmts : g.stmts.Within g'.stmts
  alternative : g.alternative.Within g'.alternative
  expr : ∀ limit, (g.expr limit).Within (g'.expr limit)
  operators : ∀ limit left, (g.operators limit left).Within (g'.operators limit left)
  suffixes : ∀ e, (g.suffixes e).Within (g'.suffixes e)
  exprs : g.exprs.Within g'.exprs
  moreExprs : g.moreExprs.Within g'.moreExprs
  moreTargets : g.moreTargets.Within g'.moreTargets
  moreNames : g.moreNames.Within g'.moreNames
  path : ∀ pos e, (g.path pos e).Within (g'.path pos e)
  params : g.params.Within g'.params
  items : g.items.Within g'.items

namespace Grammar

open ScriptCore.Parser.Within

variable {g g' : Grammar} (h : g.Within g')
include h

/-! ### Expressions -/

lemma primary_within : (primary g).Within (primary g') := by
  refine behind peek fun t => ?_
  split
  · rfl
  · exact behind advance fun _ => before (h.expr 0) _
  · rfl

lemma table_within : (table g).Within (table g') :=
  behind (expect .lBrace) fun _ => before h.items _

lemma args_within : (args g).Within (args g') := by
  refine behind peek fun t => ?_
  split
  · rfl
  · exact before (table_within h) _
  · exact behind (expect .lParen) fun _ => behind (eat .rParen) fun _ =>
      ite (refl _) (before h.exprs _)

lemma suffixesRule_within (e : RawExpr) : (suffixesRule g e).Within (suffixesRule g' e) := by
  refine behind peek fun t => ?_
  split
  · exact behind advance fun _ => behind ident fun _ => h.suffixes _
  · exact behind advance fun _ => bind (h.expr 0) fun _ => behind (expect .rBracket) fun _ =>
      h.suffixes _
  · exact behind advance fun _ => behind ident fun _ => bind (args_within h) fun _ => h.suffixes _
  · exact bind (args_within h) fun _ => h.suffixes _
  · exact bind (args_within h) fun _ => h.suffixes _
  · exact bind (args_within h) fun _ => h.suffixes _
  · rfl

lemma suffixed_within : (suffixed g).Within (suffixed g') :=
  bind (primary_within h) (suffixesRule_within h)

lemma block_within : (block g).Within (block g') :=
  behind here fun _ => before h.stmts _

lemma paramsRule_within : (paramsRule g).Within (paramsRule g') :=
  behind (eat .ellipsis) fun _ => ite (refl _) <| behind binder fun _ => behind (eat .comma) fun _ =>
    ite (before h.params _) (refl _)

lemma function_within (pos : Position) (receiver : List Binder) :
    (function g pos receiver).Within (function g' pos receiver) :=
  behind (expect .lParen) fun _ => behind kind fun _ =>
    ite (behind _ fun _ => behind (expect .rParen) fun _ => before (block_within h) _)
      (bind (paramsRule_within h) fun _ => behind (expect .rParen) fun _ =>
        before (block_within h) _)

lemma simple_within : (simple g).Within (simple g') := by
  refine behind peek fun t => ?_
  split
  iterate 6 rfl
  · exact table_within h
  · exact behind advance fun _ => before (function_within h _ _) _
  · exact suffixed_within h

lemma operatorsRule_within (limit : Nat) (left : RawExpr) :
    (operatorsRule g limit left).Within (operatorsRule g' limit left) := by
  refine behind peek fun t => ?_
  split
  · exact ite (behind advance fun _ => bind (h.expr _) fun _ => h.operators _ _) (refl _)
  · rfl

lemma exprRule_within (limit : Nat) : (exprRule g limit).Within (exprRule g' limit) := by
  refine behind peek fun t => ?_
  split
  · exact behind advance fun _ => bind (h.expr _) fun _ => operatorsRule_within h _ _
  · exact bind (simple_within h) fun _ => operatorsRule_within h _ _

lemma moreExprsRule_within : (moreExprsRule g).Within (moreExprsRule g') :=
  behind (eat .comma) fun _ => ite (bind (h.expr 0) fun _ => before h.moreExprs _) (refl _)

lemma exprsRule_within : (exprsRule g).Within (exprsRule g') :=
  bind (exprRule_within h 0) fun _ => before (moreExprsRule_within h) _

lemma item_within : (item g).Within (item g') := by
  refine behind peek fun t => ite (behind advance fun _ => bind (h.expr 0) fun _ => ?_) ?_
  · exact behind (expect .rBracket) fun _ => behind (expect .assign) fun _ => before (h.expr 0) _
  · exact behind _ fun _ => ite (behind advance fun _ => behind advance fun _ => before (h.expr 0) _)
      (before (exprRule_within h 0) _)

lemma itemsRule_within : (itemsRule g).Within (itemsRule g') :=
  behind kind fun _ => ite (refl _) <| bind (item_within h) fun _ => behind (eat .comma) fun _ =>
    ite (before h.items _) <| behind (eat .semicolon) fun _ => ite (before h.items _) (refl _)

/-! ### Statements -/

lemma moreNamesRule_within : (moreNamesRule g).Within (moreNamesRule g') :=
  behind (eat .comma) fun _ => ite (behind binder fun _ => before h.moreNames _) (refl _)

lemma localVars_within (pos : Position) : (localVars g pos).Within (localVars g' pos) :=
  behind binder fun _ => bind (moreNamesRule_within h) fun _ => behind (eat .assign) fun _ =>
    ite (before (exprsRule_within h) _) (refl _)

lemma localFunction_within (pos : Position) : (localFunction g pos).Within (localFunction g' pos) :=
  behind binder fun _ => before (function_within h _ _) _

lemma pathRule_within (pos : Position) (target : RawExpr) :
    (pathRule g pos target).Within (pathRule g' pos target) :=
  behind (eat .dot) fun _ => ite (behind ident fun _ => h.path _ _) (refl _)

lemma functionDecl_within (pos : Position) : (functionDecl g pos).Within (functionDecl g' pos) :=
  behind binder fun _ => bind (pathRule_within h _ _) fun _ => before (function_within h _ _) _

lemma alternativeRule_within : (alternativeRule g).Within (alternativeRule g') := by
  refine behind (eat .kwElseIf) fun _ => ite (bind (h.expr 0) fun _ => ?_) ?_
  · exact behind (expect .kwThen) fun _ => bind (block_within h) fun _ => before h.alternative _
  · exact behind (eat .kwElse) fun _ => ite (before (block_within h) _) (refl _)

lemma conditional_within (pos : Position) : (conditional g pos).Within (conditional g' pos) :=
  bind (h.expr 0) fun _ => behind (expect .kwThen) fun _ => bind (block_within h) fun _ =>
    before (alternativeRule_within h) _

lemma forLoop_within (pos : Position) : (forLoop g pos).Within (forLoop g' pos) := by
  have hbody : ∀ s : RawBlock → RawStmt, (do
      let _ ← expect .kwDo
      let body ← block g
      let _ ← expect .kwEnd
      return s body : Parser RawStmt).Within (do
      let _ ← expect .kwDo
      let body ← block g'
      let _ ← expect .kwEnd
      return s body) :=
    fun s => behind (expect .kwDo) fun _ => before (block_within h) _
  refine behind binder fun _ => behind (eat .assign) fun _ => ite ?_ ?_
  · refine bind (h.expr 0) fun _ => behind (expect .comma) fun _ => bind (h.expr 0) fun _ => ?_
    refine behind (eat .comma) fun _ => ite (bind (h.expr 0) fun _ => ?_) (behind _ fun _ => ?_)
    · exact behind (pure _) fun _ => hbody _
    · exact hbody _
  · refine bind (moreNamesRule_within h) fun _ => behind (expect .kwIn) fun _ => ?_
    exact bind h.exprs fun _ => hbody _

lemma moreTargetsRule_within : (moreTargetsRule g).Within (moreTargetsRule g') :=
  behind (eat .comma) fun _ => ite (bind (suffixed_within h) fun _ => before h.moreTargets _) (refl _)

lemma exprStmt_within (pos : Position) : (exprStmt g pos).Within (exprStmt g' pos) := by
  refine bind (suffixed_within h) fun first => behind peek fun t => ?_
  split
  · exact behind advance fun _ => behind (checkAssignable first) fun _ => before (h.expr 0) _
  · refine ite (bind (moreTargetsRule_within h) fun _ => ?_) (refl _)
    exact behind (expect .assign) fun _ => behind _ fun _ => before h.exprs _

lemma stmt_within : (stmt g).Within (stmt g') := by
  refine behind peek fun t => ?_
  split
  · exact behind advance fun _ => behind (eat .kwFunction) fun _ =>
      ite (localFunction_within h _) (localVars_within h _)
  · exact behind advance fun _ => functionDecl_within h _
  · exact behind advance fun _ => before (block_within h) _
  · exact behind advance fun _ => conditional_within h _
  · exact behind advance fun _ => bind (h.expr 0) fun _ => behind (expect .kwDo) fun _ =>
      before (block_within h) _
  · exact behind advance fun _ => bind (block_within h) fun _ => behind (expect .kwUntil) fun _ =>
      before (h.expr 0) _
  · exact behind advance fun _ => forLoop_within h _
  · exact behind advance fun _ => behind kind fun _ => ite (refl _) (before h.exprs _)
  · rfl
  · exact exprStmt_within h _

lemma stmtsRule_within : (stmtsRule g).Within (stmtsRule g') :=
  behind kind fun _ => ite (refl _) <| bind (stmt_within h) fun _ => behind (eat .semicolon) fun _ =>
    ite (refl _) (before h.stmts _)

/-! ### Levels -/

/-- **Rules keep the relation.** -/
theorem rules_within : (rules g).Within (rules g') where
  stmts := stmtsRule_within h
  alternative := alternativeRule_within h
  expr := exprRule_within h
  operators := operatorsRule_within h
  suffixes := suffixesRule_within h
  exprs := exprsRule_within h
  moreExprs := moreExprsRule_within h
  moreTargets := moreTargetsRule_within h
  moreNames := moreNamesRule_within h
  path := pathRule_within h
  params := paramsRule_within h
  items := itemsRule_within h

omit h

lemma bottom_within (g : Grammar) : bottom.Within g where
  stmts := of_tooDeep _
  alternative := of_tooDeep _
  expr _ := of_tooDeep _
  operators _ _ := of_tooDeep _
  suffixes _ := of_tooDeep _
  exprs := of_tooDeep _
  moreExprs := of_tooDeep _
  moreTargets := of_tooDeep _
  moreNames := of_tooDeep _
  path _ _ := of_tooDeep _
  params := of_tooDeep _
  items := of_tooDeep _

/-- **A higher level accepts what a lower one does.** -/
theorem level_within {m n : Nat} (hmn : m ≤ n) : (level m).Within (level n) := by
  induction m generalizing n with
  | zero => exact bottom_within _
  | succ m ih =>
    obtain ⟨n, rfl⟩ := Nat.exists_eq_succ_of_ne_zero (Nat.ne_of_gt (Nat.lt_of_lt_of_le m.succ_pos hmn))
    exact rules_within (ih (Nat.le_of_succ_le_succ hmn))

end Grammar

end ScriptCore
