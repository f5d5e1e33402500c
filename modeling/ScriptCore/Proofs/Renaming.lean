import ScriptCore.Proofs.Binding

set_option relaxedAutoImplicit false
set_option autoImplicit false

/-!
# Putting the names back

Binding replaces what stands for a use of a name and for its declaration, and nothing else. With
the names of the declarations put back, the bound tree of a program is the parsed one. So what is
known about the names of a text is known about those of its program.

## Main definitions

* `ScriptCore.Expr.rename`, `ScriptCore.Stmt.rename` and others — trees under a change of what
  stands for names.
* `ScriptCore.nameOf`, `ScriptCore.binderOf` — the names of the declarations of a program.
* `ScriptCore.Program.LexicallyScoped` — what lexical scoping says of a program.

## Main results

* `ScriptCore.Node.nodes_rename` — the nodes of a renamed tree.
* `ScriptCore.Program.ofBlock_rename` — the bound tree with its names put back.
* `ScriptCore.parseProgram_lexicallyScoped` — the names of a source text follow the scoping rules.
-/

namespace ScriptCore

/-! ## Renaming -/

section Rename

variable {ρ β ρ' β' : Type} (f : ρ → ρ') (g : β → β')

mutual

/-- An expression with its names replaced. -/
def Expr.rename : Expr ρ β → Expr ρ' β'
  | .nil pos => .nil pos
  | .varargs pos => .varargs pos
  | .bool value pos => .bool value pos
  | .number value pos => .number value pos
  | .string value pos => .string value pos
  | .name ref pos => .name (f ref) pos
  | .member object member pos => .member object.rename member pos
  | .index object key pos => .index object.rename key.rename pos
  | .call callee args isMethod pos => .call callee.rename (renameExprs args) isMethod pos
  | .function fn => .function fn.rename
  | .table items pos => .table (renameItems items) pos
  | .unary op operand pos => .unary op operand.rename pos
  | .binary op left right pos => .binary op left.rename right.rename pos
  | .group inner pos => .group inner.rename pos

/-- Expressions with their names replaced. -/
def renameExprs : List (Expr ρ β) → List (Expr ρ' β')
  | [] => []
  | e :: es => e.rename :: renameExprs es

/-- An optional expression with its names replaced. -/
def renameOption : Option (Expr ρ β) → Option (Expr ρ' β')
  | none => none
  | some e => some e.rename

/-- An item with its names replaced. -/
def Item.rename : Item ρ β → Item ρ' β'
  | .positional value => .positional value.rename
  | .named name value => .named name value.rename
  | .keyed key value => .keyed key.rename value.rename

/-- Items with their names replaced. -/
def renameItems : List (Item ρ β) → List (Item ρ' β')
  | [] => []
  | i :: is => i.rename :: renameItems is

/-- A function literal with its names replaced. -/
def Function.rename : Function ρ β → Function ρ' β'
  | .mk params variadic body pos => .mk (params.map g) variadic body.rename pos

/-- A statement with its names replaced. -/
def Stmt.rename : Stmt ρ β → Stmt ρ' β'
  | .localVars vars values pos => .localVars (vars.map g) (renameExprs values) pos
  | .localFunction var fn pos => .localFunction (g var) fn.rename pos
  | .functionDecl target fn pos => .functionDecl target.rename fn.rename pos
  | .assign targets values pos => .assign (renameExprs targets) (renameExprs values) pos
  | .compound op target value pos => .compound op target.rename value.rename pos
  | .expr e => .expr e.rename
  | .block body => .block body.rename
  | .conditional condition body rest pos =>
    .conditional condition.rename body.rename rest.rename pos
  | .whileLoop condition body pos => .whileLoop condition.rename body.rename pos
  | .repeatLoop body condition pos => .repeatLoop body.rename condition.rename pos
  | .numericFor var start limit step body pos =>
    .numericFor (g var) start.rename limit.rename (renameOption step) body.rename pos
  | .genericFor vars values body pos =>
    .genericFor (vars.map g) (renameExprs values) body.rename pos
  | .ret values pos => .ret (renameExprs values) pos
  | .leave pos => .leave pos

/-- Statements with their names replaced. -/
def renameStmts : List (Stmt ρ β) → List (Stmt ρ' β')
  | [] => []
  | s :: ss => s.rename :: renameStmts ss

/-- The rest of a conditional with its names replaced. -/
def Alternative.rename : Alternative ρ β → Alternative ρ' β'
  | .none => .none
  | .otherwise body => .otherwise body.rename
  | .elseIf condition body rest => .elseIf condition.rename body.rename rest.rename

/-- A block with its names replaced. -/
def Block.rename : Block ρ β → Block ρ' β'
  | .mk pos stmts => .mk pos (renameStmts stmts)

end

/-- A part of a tree with its names replaced. -/
def Node.rename : Node ρ β → Node ρ' β'
  | .expr e => .expr (e.rename f g)
  | .item i => .item (i.rename f g)
  | .stmt s => .stmt (s.rename f g)
  | .block b => .block (b.rename f g)

lemma map_expr_renameExprs (es : List (Expr ρ β)) :
    (renameExprs f g es).map Node.expr = (es.map Node.expr).map (Node.rename f g) := by
  induction es with
  | nil => rfl
  | cons e es ih => rw [renameExprs, List.map_cons, ih]; rfl

lemma map_item_renameItems (is : List (Item ρ β)) :
    (renameItems f g is).map Node.item = (is.map Node.item).map (Node.rename f g) := by
  induction is with
  | nil => rfl
  | cons i is ih => rw [renameItems, List.map_cons, ih]; rfl

lemma map_stmt_renameStmts (ss : List (Stmt ρ β)) :
    (renameStmts f g ss).map Node.stmt = (ss.map Node.stmt).map (Node.rename f g) := by
  induction ss with
  | nil => rfl
  | cons s ss ih => rw [renameStmts, List.map_cons, ih]; rfl

lemma children_renameAlternative : ∀ a : Alternative ρ β,
    (a.rename f g).children = a.children.map (Node.rename f g)
  | .none => rfl
  | .otherwise _ => rfl
  | .elseIf condition body rest => by
    rw [Alternative.rename, Alternative.children, children_renameAlternative rest]
    rfl

/-- The parts of a renamed node. -/
lemma Node.children_rename (n : Node ρ β) :
    (n.rename f g).children = n.children.map (Node.rename f g) := by
  cases n with
  | expr e =>
    cases e with
    | call callee args isMethod pos => exact congrArg (_ :: ·) (map_expr_renameExprs f g args)
    | table items pos => exact map_item_renameItems f g items
    | function fn => cases fn; rfl
    | _ => rfl
  | item i => cases i <;> rfl
  | stmt s =>
    cases s with
    | localVars vars values pos => exact map_expr_renameExprs f g values
    | ret values pos => exact map_expr_renameExprs f g values
    | assign targets values pos =>
      show (renameExprs f g targets).map Node.expr ++ (renameExprs f g values).map Node.expr = _
      rw [map_expr_renameExprs, map_expr_renameExprs, ← List.map_append]
      rfl
    | conditional condition body rest pos =>
      exact congrArg (_ :: _ :: ·) (children_renameAlternative f g rest)
    | numericFor var start limit step body pos => cases step <;> rfl
    | genericFor vars values body pos =>
      show (renameExprs f g values).map Node.expr ++ [_] = (values.map Node.expr ++ [_]).map _
      rw [map_expr_renameExprs, List.map_append]
      rfl
    | _ => rfl
  | block b =>
    obtain ⟨pos, stmts⟩ := b
    exact map_stmt_renameStmts f g stmts

/-- **The nodes of a renamed tree** are the renamed nodes. -/
theorem Node.nodes_rename (n : Node ρ β) :
    (n.rename f g).nodes = n.nodes.map (Node.rename f g) := by
  induction n using Node.induction with
  | step n ih =>
    rw [nodes_eq, nodes_eq n, children_rename, List.map_cons, List.map_flatMap, List.flatMap_map]
    exact congrArg _ (List.flatMap_congr ih)

end Rename

/-! ## The names of a program -/

/-- The name a reference was written with. -/
def nameOf (locals : Array LocalDecl) : Reference → String
  | .localVar id => (locals[id]?.map LocalDecl.name).getD ""
  | .globalVar name => name

/-- The name and the place a declaration was written with. -/
def binderOf (locals : Array LocalDecl) (id : LocalId) : Binder :=
  (locals[id]?.map fun d => ⟨d.name, d.pos⟩).getD ⟨"", .start⟩

variable {L : Array LocalDecl}

/-- What a use of a name is bound to was written with that name. -/
lemma nameOf_reference {s : Scopes} (hs : s.Sound) (hL : s.locals.toList <+: L.toList)
    (name : String) : nameOf L (s.reference name) = name := by
  rw [Scopes.reference]
  rcases h : s.lookup name with _ | id
  · rfl
  · obtain ⟨d, hd, hdn⟩ := hs.named_of_lookup h
    show (L[id]?.map LocalDecl.name).getD "" = name
    rw [getElem?_of_isPrefix hL hd]
    exact hdn

lemma binderOf_declare {s : Scopes} {b : Binder}
    (hL : (Scopes.declare b s).2.locals.toList <+: L.toList) :
    binderOf L (Scopes.declare b s).1 = b := by
  have hd : (Scopes.declare b s).2.locals[(Scopes.declare b s).1]? =
      some ⟨b.name, b.pos, s.depth⟩ := by
    show (s.locals.push _)[s.locals.size]? = _
    simp
  rw [binderOf, getElem?_of_isPrefix hL hd]
  rfl

lemma map_binderOf_declareAll : ∀ (bs : List Binder) {s : Scopes}, s.Sound →
    (bs.mapM Scopes.declare s).2.locals.toList <+: L.toList →
    (bs.mapM Scopes.declare s).1.map (binderOf L) = bs
  | [], _, _, _ => rfl
  | b :: bs, s, hs, hL => by
    rw [List.mapM_cons] at hL ⊢
    have hb := declare_binds hs b
    have hbs := declareAll_binds bs hb.sound
    exact congrArg₂ List.cons (binderOf_declare (hbs.locals.trans hL))
      (map_binderOf_declareAll bs hb.sound hL)

lemma map_binderOf_introduceAll : ∀ (bs : List Binder) {s : Scopes}, s.Sound →
    (bs.mapM Scopes.introduce s).2.locals.toList <+: L.toList →
    (bs.mapM Scopes.introduce s).1.map (binderOf L) = bs
  | [], _, _, _ => rfl
  | b :: bs, s, hs, hL => by
    rw [List.mapM_cons] at hL ⊢
    have hb := declare_binds hs b
    have hv := bind_binds hb.sound (named_declare s b)
    have hbs := introduceAll_binds bs hv.sound
    exact congrArg₂ List.cons (binderOf_declare (hv.locals.trans (hbs.locals.trans hL)))
      (map_binderOf_introduceAll bs hv.sound hL)

/-! ## The walk, with the names put back -/

section Walk

variable (L : Array LocalDecl)

mutual

/-- **Binding an expression** changes nothing but its names. -/
theorem rename_bindExpr : ∀ (e : RawExpr) {s : Scopes}, s.Sound →
    (bindExpr e s).2.locals.toList <+: L.toList →
    (bindExpr e s).1.rename (nameOf L) (binderOf L) = e
  | .nil _, _, _, _ | .varargs _, _, _, _ | .bool .., _, _, _ | .number .., _, _, _
  | .string .., _, _, _ => by
    rw [bindExpr]
    rfl
  | .name n pos, s, hs, hL => by
    rw [bindExpr] at hL ⊢
    exact congrArg (Expr.name · pos) (nameOf_reference hs hL n)
  | .member object member pos, s, hs, hL => by
    rw [bindExpr] at hL ⊢
    exact congrArg (Expr.member · member pos) (rename_bindExpr object hs hL)
  | .index object key pos, s, hs, hL => by
    rw [bindExpr] at hL ⊢
    have ho := bindExpr_binds object hs
    have hk := bindExpr_binds key ho.sound
    exact congrArg₂ (Expr.index · · pos) (rename_bindExpr object hs (hk.locals.trans hL))
      (rename_bindExpr key ho.sound hL)
  | .call callee args isMethod pos, s, hs, hL => by
    rw [bindExpr] at hL ⊢
    have hc := bindExpr_binds callee hs
    have ha := bindExprs_binds args hc.sound
    exact congrArg₂ (Expr.call · · isMethod pos) (rename_bindExpr callee hs (ha.locals.trans hL))
      (rename_bindExprs args hc.sound hL)
  | .function f, s, hs, hL => by
    rw [bindExpr] at hL ⊢
    exact congrArg Expr.function (rename_bindFunction f hs hL)
  | .table items pos, s, hs, hL => by
    rw [bindExpr] at hL ⊢
    exact congrArg (Expr.table · pos) (rename_bindItems items hs hL)
  | .unary op operand pos, s, hs, hL => by
    rw [bindExpr] at hL ⊢
    exact congrArg (Expr.unary op · pos) (rename_bindExpr operand hs hL)
  | .binary op left right pos, s, hs, hL => by
    rw [bindExpr] at hL ⊢
    have hl := bindExpr_binds left hs
    have hr := bindExpr_binds right hl.sound
    exact congrArg₂ (Expr.binary op · · pos) (rename_bindExpr left hs (hr.locals.trans hL))
      (rename_bindExpr right hl.sound hL)
  | .group inner pos, s, hs, hL => by
    rw [bindExpr] at hL ⊢
    exact congrArg (Expr.group · pos) (rename_bindExpr inner hs hL)

/-- Binding expressions changes nothing but their names. -/
theorem rename_bindExprs : ∀ (es : List RawExpr) {s : Scopes}, s.Sound →
    (bindExprs es s).2.locals.toList <+: L.toList →
    renameExprs (nameOf L) (binderOf L) (bindExprs es s).1 = es
  | [], s, hs, hL => by
    rw [bindExprs]
    rfl
  | e :: es, s, hs, hL => by
    rw [bindExprs] at hL ⊢
    have he := bindExpr_binds e hs
    have hes := bindExprs_binds es he.sound
    exact congrArg₂ List.cons (rename_bindExpr e hs (hes.locals.trans hL))
      (rename_bindExprs es he.sound hL)

/-- Binding an optional expression changes nothing but its names. -/
theorem rename_bindOption : ∀ (e : Option RawExpr) {s : Scopes}, s.Sound →
    (bindOption e s).2.locals.toList <+: L.toList →
    renameOption (nameOf L) (binderOf L) (bindOption e s).1 = e
  | none, s, hs, hL => by
    rw [bindOption]
    rfl
  | some e, s, hs, hL => by
    rw [bindOption] at hL ⊢
    exact congrArg some (rename_bindExpr e hs hL)

/-- Binding an item changes nothing but its names. -/
theorem rename_bindItem : ∀ (i : Item String Binder) {s : Scopes}, s.Sound →
    (bindItem i s).2.locals.toList <+: L.toList →
    (bindItem i s).1.rename (nameOf L) (binderOf L) = i
  | .positional value, s, hs, hL => by
    rw [bindItem] at hL ⊢
    exact congrArg Item.positional (rename_bindExpr value hs hL)
  | .named name value, s, hs, hL => by
    rw [bindItem] at hL ⊢
    exact congrArg (Item.named name) (rename_bindExpr value hs hL)
  | .keyed key value, s, hs, hL => by
    rw [bindItem] at hL ⊢
    have hk := bindExpr_binds key hs
    have hv := bindExpr_binds value hk.sound
    exact congrArg₂ Item.keyed (rename_bindExpr key hs (hv.locals.trans hL))
      (rename_bindExpr value hk.sound hL)

/-- Binding items changes nothing but their names. -/
theorem rename_bindItems : ∀ (is : List (Item String Binder)) {s : Scopes}, s.Sound →
    (bindItems is s).2.locals.toList <+: L.toList →
    renameItems (nameOf L) (binderOf L) (bindItems is s).1 = is
  | [], s, hs, hL => by
    rw [bindItems]
    rfl
  | i :: is, s, hs, hL => by
    rw [bindItems] at hL ⊢
    have hi := bindItem_binds i hs
    have his := bindItems_binds is hi.sound
    exact congrArg₂ List.cons (rename_bindItem i hs (his.locals.trans hL))
      (rename_bindItems is hi.sound hL)

/-- **Binding a function** changes nothing but its names. -/
theorem rename_bindFunction : ∀ (f : RawFunction) {s : Scopes}, s.Sound →
    (bindFunction f s).2.locals.toList <+: L.toList →
    (bindFunction f s).1.rename (nameOf L) (binderOf L) = f
  | .mk params variadic body pos, s, hs, hL => by
    rw [bindFunction] at hL ⊢
    have hin : (Scopes.enterFunction s).2.Sound := ⟨List.cons_ne_nil _ _, hs.named⟩
    have hp := introduceAll_binds params hin
    have hb := bindBody_binds body hp.sound
    exact congrArg₂ (Function.mk · variadic · pos)
      (map_binderOf_introduceAll params hin (hb.locals.trans hL))
      (rename_bindBody body hp.sound hL)

/-- **Binding a statement** changes nothing but its names. -/
theorem rename_bindStmt : ∀ (st : RawStmt) {s : Scopes}, s.Sound →
    (bindStmt st s).2.locals.toList <+: L.toList →
    (bindStmt st s).1.rename (nameOf L) (binderOf L) = st
  | .localVars vars values pos, s, hs, hL => by
    rw [bindStmt] at hL ⊢
    have hvars := declareAll_binds vars hs
    have hvalues := bindExprs_binds values hvars.sound
    have hnamed := (named_declareAll vars hs).of_isPrefix hvalues.locals
    have hbinds := bindAll_binds vars _ hvalues.sound hnamed
    have hvaluesL := hbinds.locals.trans hL
    exact congrArg₂ (Stmt.localVars · · pos)
      (map_binderOf_declareAll vars hs (hvalues.locals.trans hvaluesL))
      (rename_bindExprs values hvars.sound hvaluesL)
  | .localFunction var f pos, s, hs, hL => by
    rw [bindStmt] at hL ⊢
    have hd := declare_binds hs var
    have hv := introduce_binds hs var
    have hf := bindFunction_binds f hv.sound
    exact congrArg₂ (Stmt.localFunction · · pos)
      (binderOf_declare ((bind_binds hd.sound (named_declare s var)).locals.trans
        (hf.locals.trans hL)))
      (rename_bindFunction f hv.sound hL)
  | .functionDecl target f pos, s, hs, hL => by
    rw [bindStmt] at hL ⊢
    have ht := bindExpr_binds target hs
    have hf := bindFunction_binds f ht.sound
    exact congrArg₂ (Stmt.functionDecl · · pos) (rename_bindExpr target hs (hf.locals.trans hL))
      (rename_bindFunction f ht.sound hL)
  | .assign targets values pos, s, hs, hL => by
    rw [bindStmt] at hL ⊢
    have ht := bindExprs_binds targets hs
    have hv := bindExprs_binds values ht.sound
    exact congrArg₂ (Stmt.assign · · pos) (rename_bindExprs targets hs (hv.locals.trans hL))
      (rename_bindExprs values ht.sound hL)
  | .compound op target value pos, s, hs, hL => by
    rw [bindStmt] at hL ⊢
    have ht := bindExpr_binds target hs
    have hv := bindExpr_binds value ht.sound
    exact congrArg₂ (Stmt.compound op · · pos) (rename_bindExpr target hs (hv.locals.trans hL))
      (rename_bindExpr value ht.sound hL)
  | .expr e, s, hs, hL => by
    rw [bindStmt] at hL ⊢
    exact congrArg Stmt.expr (rename_bindExpr e hs hL)
  | .block body, s, hs, hL => by
    rw [bindStmt] at hL ⊢
    exact congrArg Stmt.block (rename_bindBlock body hs hL)
  | .conditional condition body rest pos, s, hs, hL => by
    rw [bindStmt] at hL ⊢
    have hc := bindExpr_binds condition hs
    have hb := bindBlock_binds body hc.sound
    have hr := bindAlternative_binds rest hb.sound
    have hbodyL := hr.locals.trans hL
    have hcondition := rename_bindExpr condition hs (hb.locals.trans hbodyL)
    have hbody := rename_bindBlock body hc.sound hbodyL
    have hrest := rename_bindAlternative rest hb.sound hL
    exact (Stmt.conditional.injEq ..).mpr ⟨hcondition, hbody, hrest, rfl⟩
  | .whileLoop condition body pos, s, hs, hL => by
    rw [bindStmt] at hL ⊢
    have hc := bindExpr_binds condition hs
    have hb := bindBlock_binds body hc.sound
    exact congrArg₂ (Stmt.whileLoop · · pos) (rename_bindExpr condition hs (hb.locals.trans hL))
      (rename_bindBlock body hc.sound hL)
  | .repeatLoop body condition pos, s, hs, hL => by
    rw [bindStmt] at hL ⊢
    have hb := bindBody_binds body hs.enter
    have hc := bindExpr_binds condition hb.sound
    exact congrArg₂ (Stmt.repeatLoop · · pos) (rename_bindBody body hs.enter (hc.locals.trans hL))
      (rename_bindExpr condition hb.sound hL)
  | .numericFor var start limit step body pos, s, hs, hL => by
    rw [bindStmt] at hL ⊢
    have h₁ := bindExpr_binds start hs
    have h₂ := bindExpr_binds limit h₁.sound
    have h₃ := bindOption_binds step h₂.sound
    have hd := declare_binds h₃.sound.enter var
    have hv := introduce_binds h₃.sound.enter var
    have hb := bindBlock_binds body hv.sound
    have hvarL := hb.locals.trans hL
    have hstepL := hv.locals.trans hvarL
    have hstart := rename_bindExpr start hs (h₂.locals.trans (h₃.locals.trans hstepL))
    have hlimit := rename_bindExpr limit h₁.sound (h₃.locals.trans hstepL)
    have hstep := rename_bindOption step h₂.sound hstepL
    have hvar : binderOf L (Scopes.introduce var _).1 = var :=
      binderOf_declare ((bind_binds hd.sound (named_declare _ var)).locals.trans hvarL)
    have hbody := rename_bindBlock body hv.sound hL
    exact (Stmt.numericFor.injEq ..).mpr ⟨hvar, hstart, hlimit, hstep, hbody, rfl⟩
  | .genericFor vars values body pos, s, hs, hL => by
    rw [bindStmt] at hL ⊢
    have h₁ := bindExprs_binds values hs
    have h₂ := introduceAll_binds vars h₁.sound.enter
    have hb := bindBlock_binds body h₂.sound
    have hvarsL := hb.locals.trans hL
    have hvalues := rename_bindExprs values hs (h₂.locals.trans hvarsL)
    have hvars := map_binderOf_introduceAll vars h₁.sound.enter hvarsL
    have hbody := rename_bindBlock body h₂.sound hL
    exact (Stmt.genericFor.injEq ..).mpr ⟨hvars, hvalues, hbody, rfl⟩
  | .ret values pos, s, hs, hL => by
    rw [bindStmt] at hL ⊢
    exact congrArg (Stmt.ret · pos) (rename_bindExprs values hs hL)
  | .leave pos, s, hs, hL => by
    rw [bindStmt]
    rfl

/-- Binding statements changes nothing but their names. -/
theorem rename_bindStmts : ∀ (ss : List RawStmt) {s : Scopes}, s.Sound →
    (bindStmts ss s).2.locals.toList <+: L.toList →
    renameStmts (nameOf L) (binderOf L) (bindStmts ss s).1 = ss
  | [], s, hs, hL => by
    rw [bindStmts]
    rfl
  | st :: ss, s, hs, hL => by
    rw [bindStmts] at hL ⊢
    have hst := bindStmt_binds st hs
    have hss := bindStmts_binds ss hst.sound
    exact congrArg₂ List.cons (rename_bindStmt st hs (hss.locals.trans hL))
      (rename_bindStmts ss hst.sound hL)

/-- Binding the rest of a conditional changes nothing but its names. -/
theorem rename_bindAlternative : ∀ (a : Alternative String Binder) {s : Scopes}, s.Sound →
    (bindAlternative a s).2.locals.toList <+: L.toList →
    (bindAlternative a s).1.rename (nameOf L) (binderOf L) = a
  | .none, s, hs, hL => by
    rw [bindAlternative]
    rfl
  | .otherwise body, s, hs, hL => by
    rw [bindAlternative] at hL ⊢
    exact congrArg Alternative.otherwise (rename_bindBlock body hs hL)
  | .elseIf condition body rest, s, hs, hL => by
    rw [bindAlternative] at hL ⊢
    have hc := bindExpr_binds condition hs
    have hb := bindBlock_binds body hc.sound
    have hr := bindAlternative_binds rest hb.sound
    have hbodyL := hr.locals.trans hL
    have hcondition := rename_bindExpr condition hs (hb.locals.trans hbodyL)
    have hbody := rename_bindBlock body hc.sound hbodyL
    have hrest := rename_bindAlternative rest hb.sound hL
    exact (Alternative.elseIf.injEq ..).mpr ⟨hcondition, hbody, hrest⟩

/-- Binding the body of a function or of a `repeat` loop changes nothing but its names. -/
theorem rename_bindBody : ∀ (b : RawBlock) {s : Scopes}, s.Sound →
    (bindBody b s).2.locals.toList <+: L.toList →
    (bindBody b s).1.rename (nameOf L) (binderOf L) = b
  | .mk pos stmts, s, hs, hL => by
    rw [bindBody] at hL ⊢
    exact congrArg (Block.mk pos) (rename_bindStmts stmts hs hL)

/-- **Binding a block** changes nothing but its names. -/
theorem rename_bindBlock : ∀ (b : RawBlock) {s : Scopes}, s.Sound →
    (bindBlock b s).2.locals.toList <+: L.toList →
    (bindBlock b s).1.rename (nameOf L) (binderOf L) = b
  | .mk pos stmts, s, hs, hL => by
    rw [bindBlock] at hL ⊢
    exact congrArg (Block.mk pos) (rename_bindStmts stmts hs.enter hL)

end

end Walk

/-! ## Programs -/

/-- **The bound tree of a program with its names put back** is the parsed tree. -/
theorem Program.ofBlock_rename (body : RawBlock) :
    (ofBlock body).body.rename (nameOf (ofBlock body).locals) (binderOf (ofBlock body).locals) =
      body := by
  obtain ⟨pos, stmts⟩ := body
  have hs : (Scopes.enter Scopes.empty).2.Sound := ⟨List.cons_ne_nil _ _, nofun⟩
  rw [ofBlock, bindBlock]
  exact congrArg (Block.mk pos) (rename_bindStmts _ stmts hs List.prefix_rfl)

/-- The program of a source text is that of its parsed tree. -/
lemma parseProgram_eq_ok {source : String} {p : Program} (h : parseProgram source = .ok p) :
    ∃ tokens body, tokenize source = .ok tokens ∧ parseChunk tokens = .ok body ∧
      p = Program.ofBlock body := by
  rw [parseProgram] at h
  cases htokens : tokenize source with
  | error e => rw [htokens] at h; cases h
  | ok tokens =>
    rw [htokens] at h
    change (parseChunk tokens).bind _ = _ at h
    cases hbody : parseChunk tokens with
    | error e => rw [hbody] at h; cases h
    | ok body =>
      rw [hbody] at h
      cases h
      exact ⟨tokens, body, rfl, hbody, rfl⟩

/-- The program of a source text is bound. -/
lemma bound_of_parseProgram {source : String} {p : Program} (h : parseProgram source = .ok p) :
    p.Bound := by
  obtain ⟨tokens, body, -, -, rfl⟩ := parseProgram_eq_ok h
  exact Program.ofBlock_bound body

/-- **What lexical scoping says of the program of a source text.** -/
structure Program.LexicallyScoped (p : Program) (source : String) : Prop where
  /-- The walk of the scoping rules meets every node of the program. -/
  nodes : p.scopedNodes.map Prod.snd = (Node.block p.body).nodes
  /-- A local stands at its place for its name, and the name of a global for nothing. -/
  resolves : ∀ v ref pos, (v, Node.expr (.name ref pos)) ∈ p.scopedNodes → v.Resolves p.locals ref
  /-- Every declaration of the program is made once. -/
  declared : (declaredIn [.block p.body]).Perm (List.Ico 0 p.locals.size)
  /-- With the names put back, the program is the tree of the text. -/
  written : ∃ tokens, tokenize source = .ok tokens ∧
    parseChunk tokens = .ok (p.body.rename (nameOf p.locals) (binderOf p.locals))

/-- **Lexical scoping** holds for every source text that parses.

**Proof sketch.** The program is the bound tree of the parsed one. The walk that binds it is one
stretch from an empty scope, so every node is well bound. -/
theorem parseProgram_lexicallyScoped {source : String} {p : Program}
    (h : parseProgram source = .ok p) : p.LexicallyScoped source := by
  obtain ⟨tokens, body, htokens, hbody, rfl⟩ := parseProgram_eq_ok h
  have hbound := Program.ofBlock_bound body
  refine ⟨Program.map_snd_scopedNodes _, fun v ref pos hx => ?_, hbound.declared, tokens,
    htokens, ?_⟩
  · exact (hbound.nodes _ hx).resolves ref pos rfl
  · rw [Program.ofBlock_rename, hbody]

/-- The program of `local x = x repeat local y = x until y`. -/
def shadowing : Program where
  body := .mk ⟨1, 1⟩ [
    .localVars [0] [.name (.globalVar "x") ⟨1, 11⟩] ⟨1, 1⟩,
    .repeatLoop (.mk ⟨1, 20⟩ [.localVars [1] [.name (.localVar 0) ⟨1, 30⟩] ⟨1, 20⟩])
      (.name (.localVar 1) ⟨1, 38⟩) ⟨1, 13⟩]
  locals := #[⟨"x", ⟨1, 7⟩, 0⟩, ⟨"y", ⟨1, 26⟩, 0⟩]

theorem shadowing_lexicallyScoped :
    parseProgram "local x = x repeat local y = x until y" = .ok shadowing ∧
      shadowing.LexicallyScoped "local x = x repeat local y = x until y" := by
  have hparse : parseProgram "local x = x repeat local y = x until y" = .ok shadowing := by cbv
  exact ⟨hparse, parseProgram_lexicallyScoped hparse⟩

end ScriptCore
