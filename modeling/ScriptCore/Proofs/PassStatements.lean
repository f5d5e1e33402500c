import ScriptCore.Proofs.PassExpressions

set_option relaxedAutoImplicit false
set_option autoImplicit false

/-!
# Statements in one pass

The procedures of the single pass for statements follow the rules of the grammar, and so do all levels of the
procedures where no more tokens are left than the level. So the program of some tokens is that of the parsed
tree with its names bound.

## Main results

* `ScriptCore.SinglePass.stmt_follows`, `ScriptCore.SinglePass.stmtsRule_follows` and others — one lemma for
  each procedure.
* `ScriptCore.SinglePass.level_follows` — the procedures of a level follow the grammar of that level.
* `ScriptCore.SinglePass.program_eq` — the program of some tokens.
-/

namespace ScriptCore.SinglePass

/-- Binding keeps what can be assigned to, what is a call, and all places. -/
lemma bindExpr_form (e : RawExpr) (s : Scopes) :
    (bindExpr e s).1.isAssignable = e.isAssignable ∧ (bindExpr e s).1.isCall = e.isCall ∧
      (bindExpr e s).1.pos = e.pos := by
  cases e with
  | function f =>
    obtain ⟨params, variadic, body, pos⟩ := f
    rw [bindExpr, bindFunction]
    exact ⟨rfl, rfl, rfl⟩
  | _ =>
    rw [bindExpr]
    exact ⟨rfl, rfl, rfl⟩

variable {tokens : List Token} {i : ℕ} {s : Scopes}

lemma checkAssignable_follows (e : RawExpr) (s₀ : Scopes) (hi : i < tokens.length) :
    Follows tokens i (fun u => (u, s)) i s (Grammar.checkAssignable e) (checkAssignable (bindExpr e s₀).1) := by
  obtain ⟨hassignable, -, hpos⟩ := bindExpr_form e s₀
  rw [Grammar.checkAssignable, checkAssignable, hassignable, hpos]
  exact .ite (fun _ => .pure hi le_rfl rfl) fun _ => follows_failAt hi (by simp) (by simp) _

/-- All targets of an assignment are looked at, as they stand behind the binding of the ones in front. -/
lemma forM_checkAssignable_follows (es : List RawExpr) (s₀ : Scopes) (hi : i < tokens.length) :
    Follows tokens i (fun u => (u, s)) i s (es.forM Grammar.checkAssignable)
      ((bindExprs es s₀).1.forM checkAssignable) := by
  induction es generalizing s₀ i with
  | nil =>
    rw [bindExprs]
    exact .pure hi le_rfl rfl
  | cons e es ih =>
    rw [bindExprs]
    refine (checkAssignable_follows e s₀ hi).bind fun _ j hj _ hlt => ?_
    exact (ih _ hlt).mono hj

section Rules

variable (ht : Complete tokens) {n : ℕ} {g : Grammar} {g' : Passes} (hg : PassesFollow tokens n g g')
include ht hg

/-! ### Declarations -/

lemma moreNamesRule_follows (hi : Left tokens (n + 1) i) :
    Follows tokens i (fun bs => (bs, s)) i s (Grammar.moreNamesRule g) (moreNamesRule g') := by
  refine follows_eat_bind hi.lt ht (by decide) (fun _ hlt => ?_) fun _ => .pure hi.lt le_rfl rfl
  refine follows_binder_bind hlt ht fun _ hlt => ?_
  refine (hg.moreNames _ _ (hi.behind (by omega) hlt)).bind fun bs j hj hlo hlt => ?_
  exact .pure hlt (by omega) rfl

lemma moreLocalsRule_follows (hi : Left tokens (n + 1) i) :
    Follows tokens i (fun bs => ((bs, (bs.mapM Scopes.declare s).1), (bs.mapM Scopes.declare s).2)) i s
      (Grammar.moreNamesRule g) (moreLocalsRule g') := by
  refine follows_eat_bind hi.lt ht (by decide) (fun _ hlt => ?_) fun _ => .pure hi.lt le_rfl rfl
  refine follows_binder_bind hlt ht fun _ hlt => ?_
  refine follows_onScopes_bind (Scopes.flat_declare _) ?_
  refine (hg.moreLocals _ _ (hi.behind (by omega) hlt)).bind fun bs j hj hlo hlt => ?_
  refine .pure hlt (by omega) ?_
  simp only [List.mapM_cons]
  rfl

/-- The values are bound between the declarations of the names and their scopes. -/
lemma localVars_follows (pos : Position) (hi : Left tokens (n + 1) i) :
    Follows tokens (i + 1) (fun st => bindStmt st s) i s (Grammar.localVars g pos) (localVars g' pos) := by
  refine follows_binder_bind hi.lt ht fun _ hlt => ?_
  refine follows_onScopes_bind (Scopes.flat_declare _) ?_
  refine (moreLocalsRule_follows ht hg (hi.later (by omega) hlt)).bind fun bs j hj hlo hlt => ?_
  refine follows_optional_bind hlt ht (by decide)
    (fun hlt => (exprsRule_follows ht hg (hi.later (by omega) hlt)).mono (by omega))
    (.pure hlt hj (by rw [bindExprs]; rfl)) fun values j hj hlo hlt => ?_
  refine follows_onScopes_bind (.forM (fun x => Scopes.flat_bind _ _) _) (.pure hlt hlo ?_)
  rw [bindStmt, List.mapM_cons]
  rfl

lemma localFunction_follows (pos : Position) (hi : Left tokens (n + 1) i) :
    Follows tokens (i + 1) (fun st => bindStmt st s) i s (Grammar.localFunction g pos)
      (localFunction g' pos) := by
  refine follows_binder_bind hi.lt ht fun _ hlt => ?_
  refine follows_onScopes_bind (Scopes.flat_introduce _) ?_
  refine (function_follows ht hg pos [] (hi.later (by omega) hlt)).bind fun f j hj hlo hlt => ?_
  refine .pure hlt (by omega) ?_
  rw [bindStmt]
  rfl

/-- The target so far is bound from the scopes `s` on, and so is the result. -/
lemma pathRule_follows (pos : Position) (e : RawExpr) (hi : Left tokens (n + 1) i) :
    Follows tokens i (fun r => (((bindExpr r.1 s).1, r.2), (bindExpr r.1 s).2)) i (bindExpr e s).2
      (Grammar.pathRule g pos e) (pathRule g' pos (bindExpr e s).1) := by
  refine follows_eat_bind hi.lt ht (by decide) (fun _ hlt => ?_) fun _ => ?_
  · refine follows_ident_bind hlt ht fun _ hlt => ?_
    have hrest := hg.path pos (.member e tokens[i + 1].lexeme pos) (i + 1 + 1) s (hi.behind (by omega) hlt)
    rw [bindExpr] at hrest
    exact hrest.mono (by omega)
  refine follows_eat_bind hi.lt ht (by decide) (fun _ hlt => ?_) fun _ => .pure hi.lt le_rfl rfl
  refine follows_ident_bind hlt ht fun _ hlt => ?_
  refine .pure hlt (by omega) ?_
  simp only []
  rw [bindExpr]
  rfl

lemma functionDecl_follows (pos : Position) (hi : Left tokens (n + 1) i) :
    Follows tokens (i + 1) (fun st => bindStmt st s) i s (Grammar.functionDecl g pos)
      (functionDecl g' pos) := by
  refine follows_binder_bind hi.lt ht fun _ hlt => ?_
  refine follows_nameExpr_bind ?_
  refine (pathRule_follows ht hg pos _ (hi.later (by omega) hlt)).bind fun r j hj hlo hlt => ?_
  obtain ⟨target, isMethod⟩ := r
  refine (function_follows ht hg pos _ (hi.later (by omega) hlt)).bind fun f j hj hlo hlt => ?_
  refine .pure hlt (by omega) ?_
  rw [bindStmt]
  rfl

/-! ### Conditionals and loops -/

lemma alternativeRule_follows (hi : Left tokens (n + 1) i) :
    Follows tokens i (fun a => bindAlternative a s) i s (Grammar.alternativeRule g) (alternativeRule g') := by
  refine follows_eat_bind hi.lt ht (by decide) (fun _ hlt => ?_) fun _ => ?_
  · refine (hg.expr 0 _ _ (hi.behind le_rfl hlt)).bind fun condition j hj hlo hlt => ?_
    refine follows_expect_bind hlt ht (by decide) fun _ hlt => ?_
    refine (block_follows hg (hi.behind (by omega) hlt)).bind fun b j hj hlo hlt => ?_
    refine (hg.alternative _ _ (hi.behind (by omega) hlt)).bind fun a j hj hlo hlt => ?_
    refine .pure hlt (by omega) ?_
    rw [bindAlternative]
    rfl
  refine follows_eat_bind hi.lt ht (by decide) (fun _ hlt => ?_) fun _ => ?_
  · refine (block_follows hg (hi.behind le_rfl hlt)).bind fun b j hj hlo hlt => ?_
    refine .pure hlt (by omega) ?_
    rw [bindAlternative]
    rfl
  · refine .pure hi.lt le_rfl ?_
    rw [bindAlternative]
    rfl

lemma conditional_follows (pos : Position) (hi : Left tokens n i) :
    Follows tokens (i + 1) (fun st => bindStmt st s) i s (Grammar.conditional g pos) (conditional g' pos) := by
  refine (hg.expr 0 _ _ hi).bind fun condition j hj hlo hlt => ?_
  refine follows_expect_bind hlt ht (by decide) fun _ hlt => ?_
  refine (block_follows hg (hi.later (by omega) hlt)).bind fun b j hj hlo hlt => ?_
  refine (alternativeRule_follows ht hg (hi.succ.later (by omega) hlt)).bind fun a j hj hlo hlt => ?_
  refine follows_expect_bind hlt ht (by decide) fun _ hlt => ?_
  refine .pure hlt (by omega) ?_
  rw [bindStmt]
  rfl

omit ht in
/-- The variables of a loop are visible in its body. -/
lemma loopBody_follows {α : Type} {vars : Binding α} (hflat : Scopes.Flat vars) (hi : Left tokens n i) :
    Follows tokens i (fun b =>
      (((vars (Scopes.enter s).2).1, (bindBlock b (vars (Scopes.enter s).2).2).1),
        (Scopes.exit (bindBlock b (vars (Scopes.enter s).2).2).2).2)) i s
      (Grammar.block g) (loopBody g' vars) := by
  have hbody : Follows tokens i (fun b =>
      (((vars (Scopes.enter s).2).1, (bindBlock b (vars (Scopes.enter s).2).2).1),
        (bindBlock b (vars (Scopes.enter s).2).2).2)) i (Scopes.enter s).2
      (Grammar.block g >>= fun b => pure b)
      (onScopes vars >>= fun ids => block g' >>= fun b => pure (ids, b)) := by
    refine follows_onScopes_bind hflat ?_
    exact (block_follows hg hi).bind fun b j hj hlo hlt => .pure hlt hlo rfl
  rw [bind_pure] at hbody
  exact hbody.within fun _ => .exit

/-- A loop over numbers, behind its step. Its bounds and its step are bound from the scopes `s` on. -/
lemma numericLoop_follows (b : Binder) (start limit : RawExpr) (step : Option RawExpr) (pos : Position)
    (hi : Left tokens (n + 1) i) :
    Follows tokens i (fun st => bindStmt st s) i (bindOption step (bindExpr limit (bindExpr start s).2).2).2
      (do
        let _ ← Parser.expect .kwDo
        let body ← Grammar.block g
        let _ ← Parser.expect .kwEnd
        return .numericFor b start limit step body pos)
      (do
        let _ ← expect .kwDo
        let loop ← loopBody g' (Scopes.introduce b)
        let _ ← expect .kwEnd
        return .numericFor loop.1 (bindExpr start s).1 (bindExpr limit (bindExpr start s).2).1
          (bindOption step (bindExpr limit (bindExpr start s).2).2).1 loop.2 pos) := by
  refine follows_expect_bind hi.lt ht (by decide) fun _ hlt => ?_
  refine (loopBody_follows hg (Scopes.flat_introduce _) (hi.behind le_rfl hlt)).bind fun b j hj hlo hlt => ?_
  refine follows_expect_bind hlt ht (by decide) fun _ hlt => ?_
  refine .pure hlt (by omega) ?_
  rw [bindStmt]
  rfl

lemma forLoop_follows (pos : Position) (hi : Left tokens (n + 1) i) :
    Follows tokens (i + 1) (fun st => bindStmt st s) i s (Grammar.forLoop g pos) (forLoop g' pos) := by
  refine follows_binder_bind hi.lt ht fun _ hlt => ?_
  refine follows_eat_bind hlt ht (by decide) (fun _ hlt => ?_) fun _ => ?_
  · refine (hg.expr 0 _ _ (hi.behind (by omega) hlt)).bind fun start j hj hlo hlt => ?_
    refine follows_expect_bind hlt ht (by decide) fun _ hlt => ?_
    refine (hg.expr 0 _ _ (hi.behind (by omega) hlt)).bind fun limit j hj hlo hlt => ?_
    refine follows_eat_bind hlt ht (by decide) (fun _ hlt => ?_) fun _ => ?_
    · refine (hg.expr 0 _ _ (hi.behind (by omega) hlt)).bind fun step k hk hlo hlt => ?_
      have hloop := numericLoop_follows ht hg (s := s) ⟨tokens[i].lexeme, tokens[i].pos⟩ start limit (some step) pos
        (hi.later (by omega) hlt)
      rw [bindOption] at hloop
      exact hloop.mono (by omega)
    · have hloop := numericLoop_follows ht hg (s := s) ⟨tokens[i].lexeme, tokens[i].pos⟩ start limit none pos
        (hi.later (by omega) hlt)
      rw [bindOption] at hloop
      exact hloop.mono (by omega)
  · refine (moreNamesRule_follows ht hg (hi.later (by omega) hlt)).bind fun bs j hj hlo hlt => ?_
    refine follows_expect_bind hlt ht (by decide) fun _ hlt => ?_
    refine (hg.exprs _ _ (hi.behind (by omega) hlt)).bind fun values j hj hlo hlt => ?_
    refine follows_expect_bind hlt ht (by decide) fun _ hlt => ?_
    refine (loopBody_follows hg (.mapM Scopes.flat_introduce _) (hi.behind (by omega) hlt)).bind
      fun b j hj hlo hlt => ?_
    refine follows_expect_bind hlt ht (by decide) fun _ hlt => ?_
    refine .pure hlt (by omega) ?_
    rw [bindStmt]
    rfl

/-! ### Assignments and calls -/

lemma moreTargetsRule_follows (hi : Left tokens (n + 1) i) :
    Follows tokens i (fun es => bindExprs es s) i s (Grammar.moreTargetsRule g) (moreTargetsRule g') := by
  refine follows_eat_bind hi.lt ht (by decide) (fun _ hlt => ?_) fun _ => ?_
  · refine (suffixed_follows ht hg (hi.later (by omega) hlt)).bind fun e j hj hlo hlt => ?_
    refine (hg.moreTargets _ _ (hi.behind (by omega) hlt)).bind fun es j hj hlo hlt => ?_
    refine .pure hlt (by omega) ?_
    rw [bindExprs]
    rfl
  · refine .pure hi.lt le_rfl ?_
    rw [bindExprs]
    rfl

lemma exprStmt_follows (pos : Position) (hi : Left tokens (n + 1) i) :
    Follows tokens (i + 1) (fun st => bindStmt st s) i s (Grammar.exprStmt g pos) (exprStmt g' pos) := by
  refine (suffixed_follows ht hg hi).bind fun first j hj hlo hlt => ?_
  obtain ⟨-, hcall, -⟩ := bindExpr_form first s
  refine follows_peek_bind hlt ?_
  cases hop : BinaryOp.ofAssignment? tokens[j].kind with
  | some op =>
    have hkind : tokens[j].kind ≠ .eof := fun heof => by
      rw [heof] at hop
      cases hop
    refine follows_advance_bind hlt ht hkind fun hlt => ?_
    refine (checkAssignable_follows first s hlt).bind fun _ j hj _ hlt => ?_
    refine (hg.expr 0 _ _ (hi.behind (by omega) hlt)).bind fun value j hj hlo hlt => ?_
    refine .pure hlt (by omega) ?_
    rw [bindStmt]
    rfl
  | none =>
    refine .ite (fun _ => ?_) fun _ => ?_
    · refine (moreTargetsRule_follows ht hg (hi.later hj hlt)).bind fun es j hj hlo hlt => ?_
      refine follows_expect_bind hlt ht (by decide) fun _ hlt => ?_
      have hall := forM_checkAssignable_follows (s := (bindExprs (first :: es) s).2) (first :: es) s hlt
      rw [bindExprs] at hall
      refine hall.bind fun _ j hj _ hlt => ?_
      refine (hg.exprs _ _ (hi.behind (by omega) hlt)).bind fun values j hj hlo hlt => ?_
      refine .pure hlt (by omega) ?_
      rw [bindStmt, bindExprs]
      rfl
    · rw [hcall]
      refine .ite (fun _ => .pure hlt hlo ?_) fun _ => follows_failAt hlt (by simp) (by simp) _
      rw [bindStmt]
      rfl

/-- The condition of the loop is bound in the scope of its body. -/
lemma repeatLoop_follows (pos : Position) (hi : Left tokens n i) :
    Follows tokens (i + 1) (fun st => bindStmt st s) i s
      (do
        let body ← Grammar.block g
        let _ ← Parser.expect .kwUntil
        return .repeatLoop body (← g.expr 0) pos)
      (repeatLoop g' pos) := by
  have hscope : Follows tokens (i + 1)
      (fun r : RawBlock × RawExpr => (Stmt.repeatLoop (bindBody r.1 (Scopes.enter s).2).1
        (bindExpr r.2 (bindBody r.1 (Scopes.enter s).2).2).1 pos,
          (bindExpr r.2 (bindBody r.1 (Scopes.enter s).2).2).2))
      i (Scopes.enter s).2
      (do
        let body ← Grammar.block g
        let _ ← Parser.expect .kwUntil
        return (body, ← g.expr 0))
      (do
        let body ← body g'
        let _ ← expect .kwUntil
        return Stmt.repeatLoop body (← g'.expr 0) pos) := by
    refine (body_follows hg hi).bind fun b j hj hlo hlt => ?_
    refine follows_expect_bind hlt ht (by decide) fun _ hlt => ?_
    exact (hg.expr 0 _ _ (hi.later (by omega) hlt)).bind fun condition j hj hlo hlt => .pure hlt (by omega) rfl
  have hloop : Follows tokens (i + 1) (fun st => bindStmt st s) i s
      (_ >>= fun r : RawBlock × RawExpr => pure (.repeatLoop r.1 r.2 pos)) (repeatLoop g' pos >>= pure) :=
    (hscope.within fun _ => .exit).bind fun r j hj hlo hlt => by
      refine .pure hlt hlo ?_
      rw [bindStmt]
      rfl
  -- the grammar makes the statement where the scope is closed already
  simp only [bind_assoc, pure_bind, bind_pure] at hloop
  exact hloop

lemma stmt_follows (hi : Left tokens (n + 1) i) :
    Follows tokens (i + 1) (fun st => bindStmt st s) i s (Grammar.stmt g) (stmt g') := by
  have hlt := hi.lt
  refine follows_peek_bind hlt ?_
  cases hk : tokens[i].kind with
  | kwLocal =>
    refine follows_advance_bind hi.lt ht (by simp [hk]) fun hlt => ?_
    refine follows_eat_bind hlt ht (by decide) (fun _ hlt => ?_) fun _ => ?_
    · exact (localFunction_follows ht hg _ (hi.later (by omega) hlt)).mono (by omega)
    · exact (localVars_follows ht hg _ (hi.later (by omega) hlt)).mono (by omega)
  | kwFunction =>
    refine follows_advance_bind hi.lt ht (by simp [hk]) fun hlt => ?_
    exact (functionDecl_follows ht hg _ (hi.later (by omega) hlt)).mono (by omega)
  | kwDo =>
    refine follows_advance_bind hi.lt ht (by simp [hk]) fun hlt => ?_
    refine (block_follows hg (hi.behind le_rfl hlt)).bind fun b j hj hlo hlt => ?_
    refine follows_expect_bind hlt ht (by decide) fun _ hlt => ?_
    refine .pure hlt (by omega) ?_
    rw [bindStmt]
    rfl
  | kwIf =>
    refine follows_advance_bind hi.lt ht (by simp [hk]) fun hlt => ?_
    exact (conditional_follows ht hg _ (hi.behind le_rfl hlt)).mono (by omega)
  | kwWhile =>
    refine follows_advance_bind hi.lt ht (by simp [hk]) fun hlt => ?_
    refine (hg.expr 0 _ _ (hi.behind le_rfl hlt)).bind fun condition j hj hlo hlt => ?_
    refine follows_expect_bind hlt ht (by decide) fun _ hlt => ?_
    refine (block_follows hg (hi.behind (by omega) hlt)).bind fun b j hj hlo hlt => ?_
    refine follows_expect_bind hlt ht (by decide) fun _ hlt => ?_
    refine .pure hlt (by omega) ?_
    rw [bindStmt]
    rfl
  | kwRepeat =>
    refine follows_advance_bind hi.lt ht (by simp [hk]) fun hlt => ?_
    exact (repeatLoop_follows ht hg _ (hi.behind le_rfl hlt)).mono (by omega)
  | kwFor =>
    refine follows_advance_bind hi.lt ht (by simp [hk]) fun hlt => ?_
    exact (forLoop_follows ht hg _ (hi.later (by omega) hlt)).mono (by omega)
  | kwReturn =>
    refine follows_advance_bind hi.lt ht (by simp [hk]) fun hlt => ?_
    refine follows_kind_bind hlt (.ite (fun _ => ?_) fun _ => ?_)
    · refine .pure hlt le_rfl ?_
      rw [bindStmt, bindExprs]
      rfl
    · refine (hg.exprs _ _ (hi.behind le_rfl hlt)).bind fun values j hj hlo hlt => ?_
      refine .pure hlt (by omega) ?_
      rw [bindStmt]
      rfl
  | kwBreak =>
    refine follows_advance_bind hi.lt ht (by simp [hk]) fun hlt => ?_
    refine .pure hlt le_rfl ?_
    rw [bindStmt]
    rfl
  | _ => exact exprStmt_follows ht hg _ hi

/-- A statement takes a token at least, so fewer are left behind it. -/
lemma stmtsRule_follows (hi : Left tokens (n + 1) i) :
    Follows tokens i (fun ss => bindStmts ss s) i s (Grammar.stmtsRule g) (stmtsRule g') := by
  refine follows_kind_bind hi.lt (.ite (fun _ => ?_) fun _ => ?_)
  · refine .pure hi.lt le_rfl ?_
    rw [bindStmts]
    rfl
  refine (stmt_follows ht hg hi).bind fun st j hj hlo hlt => ?_
  have hrest : ∀ k, i + 1 ≤ k → k < tokens.length →
      Follows tokens i (fun ss => bindStmts ss s) k (bindStmt st s).2
      (if tokens[i].kind = .kwReturn ∨ tokens[i].kind = .kwBreak then pure [st] else return st :: (← g.stmts))
      (if tokens[i].kind = .kwReturn ∨ tokens[i].kind = .kwBreak then pure [(bindStmt st s).1]
        else return (bindStmt st s).1 :: (← g'.stmts)) := by
    intro k hk hlt
    refine .ite (fun _ => .pure hlt (by omega) ?_) fun _ => ?_
    · rw [bindStmts, bindStmts]
      rfl
    · refine (hg.stmts _ _ (hi.behind hk hlt)).bind fun ss j hj hlo hlt => ?_
      refine .pure hlt (by omega) ?_
      rw [bindStmts]
      rfl
  exact follows_eat_bind hlt ht (by decide) (fun _ hlt => hrest _ (by omega) hlt) fun _ => hrest _ hlo hlt

/-- **One level more**, where one token more is left. -/
theorem rules_follow : PassesFollow tokens (n + 1) (Grammar.rules g) (rules g') where
  stmts _ _ hi := stmtsRule_follows ht hg hi
  alternative _ _ hi := alternativeRule_follows ht hg hi
  expr limit _ _ hi := exprRule_follows ht hg limit hi
  operators limit e _ _ hi := operatorsRule_follows ht hg limit e hi
  suffixes e _ _ hi := suffixesRule_follows ht hg e hi
  exprs _ _ hi := exprsRule_follows ht hg hi
  moreExprs _ _ hi := moreExprsRule_follows ht hg hi
  moreTargets _ _ hi := moreTargetsRule_follows ht hg hi
  moreLocals _ _ hi := moreLocalsRule_follows ht hg hi
  moreNames _ _ hi := moreNamesRule_follows ht hg hi
  path pos e _ _ hi := pathRule_follows ht hg pos e hi
  params _ _ hi := paramsRule_follows ht hg hi
  items _ _ hi := itemsRule_follows ht hg hi

end Rules

/-! ### Levels -/

section Levels

variable (ht : Complete tokens) {n m m' : ℕ}
include ht

/-- **Procedures of any level follow the grammar of any level** where no more tokens are left than either level.
The induction is on the tokens that are left: with none left there is no token to stand at. -/
theorem level_follows (hm : n ≤ m) (hm' : n ≤ m') : PassesFollow tokens n (Grammar.level m) (level m') := by
  induction n generalizing m m' with
  | zero =>
    have hnone : ∀ i, ¬ Left tokens 0 i := fun i hi => absurd hi.lt (Nat.not_lt.mpr hi.le)
    constructor <;> intros <;> exact absurd ‹Left tokens 0 _› (hnone _)
  | succ n ih =>
    obtain ⟨m, rfl⟩ := Nat.exists_eq_succ_of_ne_zero (Nat.ne_zero_of_lt hm)
    obtain ⟨m', rfl⟩ := Nat.exists_eq_succ_of_ne_zero (Nat.ne_zero_of_lt hm')
    exact rules_follow ht (ih (Nat.le_of_succ_le_succ hm) (Nat.le_of_succ_le_succ hm'))

lemma chunk_follows (hm : n ≤ m) (hm' : n ≤ m') (hi : Left tokens n i) :
    Follows tokens i (fun b => bindBlock b s) i s (ScriptCore.chunk (Grammar.level m)) (chunk (level m')) := by
  refine (block_follows (level_follows ht hm hm') hi).bind fun b j hj hlo hlt => ?_
  refine follows_peek_bind hlt (.ite (fun _ => .pure hlt hlo rfl) fun _ => ?_)
  exact follows_failAt hlt (by simp) (by simp) _

omit ht in
/-- All tokens of a source are left at the first one. -/
lemma Complete.left (ht : Complete tokens) : Left tokens tokens.length 0 := by
  obtain ⟨found, eof, rfl, -⟩ := ht.ends
  exact ⟨by simp, by omega⟩

/-- **The single pass agrees with parsing first and binding afterwards.** -/
theorem program_eq {depth : ℕ} (hdepth : tokens.length ≤ depth) :
    program depth tokens = ((parseChunk tokens).map Program.ofBlock).mapError .refused := by
  have hchunk := chunk_follows ht le_rfl hdepth ht.left (s := Scopes.empty)
  rw [program, parseChunk]
  cases hchunk with
  | accepts hrun hrun' _ _ _ _ =>
    rw [List.drop_zero] at hrun
    rw [hrun, hrun']
    rfl
  | refuses hrun hrun' _ _ _ _ _ =>
    rw [List.drop_zero] at hrun
    rw [hrun, hrun']
    rfl

/-- The tokens of a source are not refused for a numeral without a value, or for their nesting. -/
lemma cause_of_parseChunk {e : ParseError} (h : parseChunk tokens = .error e) :
    e.cause ≠ .noValue ∧ e.cause ≠ .tooDeep := by
  have hchunk := chunk_follows ht le_rfl le_rfl ht.left (s := Scopes.empty)
  rw [parseChunk] at h
  cases hchunk with
  | accepts hrun _ _ _ _ _ =>
    rw [List.drop_zero] at hrun
    rw [hrun] at h
    cases h
  | refuses hrun _ hvalue hdeep _ _ _ =>
    rw [List.drop_zero] at hrun
    rw [hrun] at h
    cases h
    exact ⟨hvalue, hdeep⟩

end Levels

end ScriptCore.SinglePass
