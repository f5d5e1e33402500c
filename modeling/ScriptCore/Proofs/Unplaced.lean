import ScriptCore.Proofs.TreeShapes

set_option relaxedAutoImplicit false
set_option autoImplicit false

/-!
# Trees without their places

Two texts may have the same tree up to the places of its parts. What that means is said by a function that
puts every part at the start of the text. Places do not matter for binding: the walk that binds the names of
a tree without places makes the same declarations, and gives the bound tree without places.

## Main definitions

* `ScriptCore.Expr.unplaced`, `ScriptCore.Block.unplaced` and others — trees without places.
* `ScriptCore.Program.unplaced` — programs without places: trees, numbers of declarations, and names and
  depths of the declarations are kept.

## Main results

* `ScriptCore.Program.unplaced_ofBlock` — the program of a tree up to places is determined by the tree up to
  places.
-/

namespace ScriptCore

/-! ## Without places -/

section Unplaced

variable {ρ β : Type} (g : β → β)

mutual

/-- An expression without places; `g` takes them away from declarations. -/
def Expr.unplaced : Expr ρ β → Expr ρ β
  | .nil _ => .nil .start
  | .varargs _ => .varargs .start
  | .bool value _ => .bool value .start
  | .number value _ => .number value .start
  | .string value _ => .string value .start
  | .name ref _ => .name ref .start
  | .member object member _ => .member object.unplaced member .start
  | .index object key _ => .index object.unplaced key.unplaced .start
  | .call callee args isMethod _ => .call callee.unplaced (unplacedExprs args) isMethod .start
  | .function f => .function f.unplaced
  | .table items _ => .table (unplacedItems items) .start
  | .unary op operand _ => .unary op operand.unplaced .start
  | .binary op left right _ => .binary op left.unplaced right.unplaced .start
  | .group inner _ => .group inner.unplaced .start

/-- Expressions without places. -/
def unplacedExprs : List (Expr ρ β) → List (Expr ρ β)
  | [] => []
  | e :: es => e.unplaced :: unplacedExprs es

/-- An optional expression without places. -/
def unplacedOption : Option (Expr ρ β) → Option (Expr ρ β)
  | none => none
  | some e => some e.unplaced

/-- An item without places. -/
def Item.unplaced : Item ρ β → Item ρ β
  | .positional value => .positional value.unplaced
  | .named name value => .named name value.unplaced
  | .keyed key value => .keyed key.unplaced value.unplaced

/-- Items without places. -/
def unplacedItems : List (Item ρ β) → List (Item ρ β)
  | [] => []
  | i :: is => i.unplaced :: unplacedItems is

/-- A function literal without places. -/
def Function.unplaced : Function ρ β → Function ρ β
  | .mk params variadic body _ => .mk (params.map g) variadic body.unplaced .start

/-- A statement without places. -/
def Stmt.unplaced : Stmt ρ β → Stmt ρ β
  | .localVars vars values _ => .localVars (vars.map g) (unplacedExprs values) .start
  | .localFunction var f _ => .localFunction (g var) f.unplaced .start
  | .functionDecl target f _ => .functionDecl target.unplaced f.unplaced .start
  | .assign targets values _ => .assign (unplacedExprs targets) (unplacedExprs values) .start
  | .compound op target value _ => .compound op target.unplaced value.unplaced .start
  | .expr e => .expr e.unplaced
  | .block body => .block body.unplaced
  | .conditional condition body rest _ =>
    .conditional condition.unplaced body.unplaced rest.unplaced .start
  | .whileLoop condition body _ => .whileLoop condition.unplaced body.unplaced .start
  | .repeatLoop body condition _ => .repeatLoop body.unplaced condition.unplaced .start
  | .numericFor var start limit step body _ =>
    .numericFor (g var) start.unplaced limit.unplaced (unplacedOption step) body.unplaced .start
  | .genericFor vars values body _ =>
    .genericFor (vars.map g) (unplacedExprs values) body.unplaced .start
  | .ret values _ => .ret (unplacedExprs values) .start
  | .leave _ => .leave .start

/-- Statements without places. -/
def unplacedStmts : List (Stmt ρ β) → List (Stmt ρ β)
  | [] => []
  | s :: ss => s.unplaced :: unplacedStmts ss

/-- The rest of a conditional without places. -/
def Alternative.unplaced : Alternative ρ β → Alternative ρ β
  | .none => .none
  | .otherwise body => .otherwise body.unplaced
  | .elseIf condition body rest => .elseIf condition.unplaced body.unplaced rest.unplaced

/-- A block without places. -/
def Block.unplaced : Block ρ β → Block ρ β
  | .mk _ stmts => .mk .start (unplacedStmts stmts)

end

end Unplaced

/-- A declared name without its place. -/
def Binder.unplaced (b : Binder) : Binder := ⟨b.name, .start⟩

/-- A local declaration without its place. -/
def LocalDecl.unplaced (d : LocalDecl) : LocalDecl := { d with pos := .start }

/-- **A program without places.** -/
def Program.unplaced (p : Program) : Program :=
  ⟨p.body.unplaced id, p.locals.map LocalDecl.unplaced⟩

/-! ## Binding -/

/-- The state of the walk without the places of the declarations. -/
def Scopes.unplaced (s : Scopes) : Scopes := { s with locals := s.locals.map LocalDecl.unplaced }

variable {α γ α' γ' : Type}

/-- **A walk does not look at places**: from a state without places, `m'` gives what `m` gives, without
places. -/
def Binding.Unplaces (u : α → α') (m : Binding α) (m' : Binding α') : Prop :=
  ∀ s, m' s.unplaced = (u (m s).1, (m s).2.unplaced)

namespace Binding

variable {u : α → α'} {v : γ → γ'} {m : Binding α} {m' : Binding α'}

lemma Unplaces.pure {a : α} {a' : α'} (h : a' = u a) :
    Unplaces u (Pure.pure a : Binding α) (Pure.pure a') := by
  subst h
  exact fun s => rfl

/-- One walk behind the other. -/
lemma Unplaces.bind {f : α → Binding γ} {f' : α' → Binding γ'} (h : Unplaces u m m')
    (hf : ∀ a, Unplaces v (f a) (f' (u a))) : Unplaces v (m >>= f) (m' >>= f') := by
  intro s
  change f' (m' s.unplaced).1 (m' s.unplaced).2 = _
  rw [h s]
  exact hf (m s).1 (m s).2

end Binding

namespace Scopes

open Binding (Unplaces)

lemma unplaces_declare (b : Binder) : Unplaces id (declare b) (declare b.unplaced) := by
  intro s
  have hsize : (s.locals.map LocalDecl.unplaced).size = s.locals.size := Array.size_map
  have hpush : (s.locals.push ⟨b.name, b.pos, s.depth⟩).map LocalDecl.unplaced =
      (s.locals.map LocalDecl.unplaced).push ⟨b.name, .start, s.depth⟩ := Array.map_push
  change ((s.locals.map LocalDecl.unplaced).size,
      (⟨(s.locals.map LocalDecl.unplaced).push ⟨b.name, .start, s.depth⟩, s.visible, s.depth⟩ :
        Scopes)) =
    (s.locals.size, ⟨(s.locals.push ⟨b.name, b.pos, s.depth⟩).map LocalDecl.unplaced, s.visible,
      s.depth⟩)
  rw [hsize, hpush]

lemma unplaces_bind (name : String) (id : LocalId) :
    Unplaces (fun x => x) (Scopes.bind name id) (Scopes.bind name id) := by
  rintro ⟨L, visible, depth⟩
  cases visible <;> rfl

lemma unplaces_introduce (b : Binder) : Unplaces id (introduce b) (introduce b.unplaced) :=
  (unplaces_declare b).bind fun i => (unplaces_bind b.name i).bind fun _ => .pure rfl

lemma unplaces_enter : Unplaces id enter enter := fun _ => rfl

lemma unplaces_exit : Unplaces id exit exit := fun _ => rfl

lemma unplaces_enterFunction : Unplaces id enterFunction enterFunction := fun _ => rfl

lemma unplaces_exitFunction : Unplaces id exitFunction exitFunction := fun _ => rfl

/-- Declarations made one after the other. -/
lemma unplaces_mapM {f : Binder → Binding LocalId} (hf : ∀ b, Unplaces id (f b) (f b.unplaced))
    (bs : List Binder) : Unplaces id (bs.mapM f) ((bs.map Binder.unplaced).mapM f) := by
  induction bs with
  | nil => exact .pure rfl
  | cons b bs ih =>
    rw [List.map_cons, List.mapM_cons, List.mapM_cons]
    exact (hf b).bind fun i => ih.bind fun is => .pure rfl

/-- Declarations made visible one after the other. -/
lemma unplaces_bindAll (bs : List Binder) (ids : List LocalId) :
    Unplaces id ((bs.zip ids).forM fun x => Scopes.bind x.1.name x.2)
      (((bs.map Binder.unplaced).zip ids).forM fun x => Scopes.bind x.1.name x.2) := by
  induction bs generalizing ids with
  | nil => exact .pure rfl
  | cons b bs ih =>
    cases ids with
    | nil => exact .pure rfl
    | cons i ids => exact (unplaces_bind b.name i).bind fun _ => ih ids

end Scopes

open Binding Scopes

mutual

/-- **Binding an expression** does not look at places. -/
theorem unplaces_bindExpr : ∀ e : RawExpr,
    Unplaces (Expr.unplaced id) (bindExpr e) (bindExpr (e.unplaced Binder.unplaced))
  | .nil _ | .varargs _ | .bool .. | .number .. | .string .. => by
    rw [Expr.unplaced, bindExpr, bindExpr]
    exact .pure rfl
  | .name n pos => by
    rw [Expr.unplaced, bindExpr, bindExpr]
    exact fun s => rfl
  | .member object member pos => by
    rw [Expr.unplaced, bindExpr, bindExpr]
    exact (unplaces_bindExpr object).bind fun _ => .pure rfl
  | .index object key pos => by
    rw [Expr.unplaced, bindExpr, bindExpr]
    exact (unplaces_bindExpr object).bind fun _ => (unplaces_bindExpr key).bind fun _ => .pure rfl
  | .call callee args isMethod pos => by
    rw [Expr.unplaced, bindExpr, bindExpr]
    exact (unplaces_bindExpr callee).bind fun _ => (unplaces_bindExprs args).bind fun _ => .pure rfl
  | .function f => by
    rw [Expr.unplaced, bindExpr, bindExpr]
    exact (unplaces_bindFunction f).bind fun _ => .pure rfl
  | .table items pos => by
    rw [Expr.unplaced, bindExpr, bindExpr]
    exact (unplaces_bindItems items).bind fun _ => .pure rfl
  | .unary op operand pos => by
    rw [Expr.unplaced, bindExpr, bindExpr]
    exact (unplaces_bindExpr operand).bind fun _ => .pure rfl
  | .binary op left right pos => by
    rw [Expr.unplaced, bindExpr, bindExpr]
    exact (unplaces_bindExpr left).bind fun _ => (unplaces_bindExpr right).bind fun _ => .pure rfl
  | .group inner pos => by
    rw [Expr.unplaced, bindExpr, bindExpr]
    exact (unplaces_bindExpr inner).bind fun _ => .pure rfl

/-- Binding expressions does not look at places. -/
theorem unplaces_bindExprs : ∀ es : List RawExpr,
    Unplaces (unplacedExprs id) (bindExprs es) (bindExprs (unplacedExprs Binder.unplaced es))
  | [] => by
    rw [unplacedExprs, bindExprs]
    exact .pure rfl
  | e :: es => by
    rw [unplacedExprs, bindExprs, bindExprs]
    exact (unplaces_bindExpr e).bind fun _ => (unplaces_bindExprs es).bind fun _ => .pure rfl

/-- Binding an optional expression does not look at places. -/
theorem unplaces_bindOption : ∀ e : Option RawExpr,
    Unplaces (unplacedOption id) (bindOption e) (bindOption (unplacedOption Binder.unplaced e))
  | none => by
    rw [unplacedOption, bindOption]
    exact .pure rfl
  | some e => by
    rw [unplacedOption, bindOption, bindOption]
    exact (unplaces_bindExpr e).bind fun _ => .pure rfl

/-- Binding an item does not look at places. -/
theorem unplaces_bindItem : ∀ i : Item String Binder,
    Unplaces (Item.unplaced id) (bindItem i) (bindItem (i.unplaced Binder.unplaced))
  | .positional value => by
    rw [Item.unplaced, bindItem, bindItem]
    exact (unplaces_bindExpr value).bind fun _ => .pure rfl
  | .named name value => by
    rw [Item.unplaced, bindItem, bindItem]
    exact (unplaces_bindExpr value).bind fun _ => .pure rfl
  | .keyed key value => by
    rw [Item.unplaced, bindItem, bindItem]
    exact (unplaces_bindExpr key).bind fun _ => (unplaces_bindExpr value).bind fun _ => .pure rfl

/-- Binding items does not look at places. -/
theorem unplaces_bindItems : ∀ is : List (Item String Binder),
    Unplaces (unplacedItems id) (bindItems is) (bindItems (unplacedItems Binder.unplaced is))
  | [] => by
    rw [unplacedItems, bindItems]
    exact .pure rfl
  | i :: is => by
    rw [unplacedItems, bindItems, bindItems]
    exact (unplaces_bindItem i).bind fun _ => (unplaces_bindItems is).bind fun _ => .pure rfl

/-- Binding a function literal does not look at places. -/
theorem unplaces_bindFunction : ∀ f : RawFunction,
    Unplaces (Function.unplaced id) (bindFunction f) (bindFunction (f.unplaced Binder.unplaced))
  | .mk params variadic body pos => by
    rw [Function.unplaced, bindFunction, bindFunction]
    refine unplaces_enterFunction.bind fun _ => ?_
    refine (unplaces_mapM unplaces_introduce params).bind fun ids => ?_
    refine (unplaces_bindBody body).bind fun _ => unplaces_exitFunction.bind fun _ => .pure ?_
    rw [Function.unplaced, List.map_id, id]

/-- Binding a statement does not look at places. -/
theorem unplaces_bindStmt : ∀ s : RawStmt,
    Unplaces (Stmt.unplaced id) (bindStmt s) (bindStmt (s.unplaced Binder.unplaced))
  | .localVars vars values pos => by
    rw [Stmt.unplaced, bindStmt, bindStmt]
    refine (unplaces_mapM unplaces_declare vars).bind fun ids => ?_
    refine (unplaces_bindExprs values).bind fun _ => (unplaces_bindAll vars ids).bind fun _ => ?_
    refine .pure ?_
    rw [Stmt.unplaced, List.map_id, id]
  | .localFunction var f pos => by
    rw [Stmt.unplaced, bindStmt, bindStmt]
    exact (unplaces_introduce var).bind fun _ => (unplaces_bindFunction f).bind fun _ => .pure rfl
  | .functionDecl target f pos => by
    rw [Stmt.unplaced, bindStmt, bindStmt]
    exact (unplaces_bindExpr target).bind fun _ => (unplaces_bindFunction f).bind fun _ => .pure rfl
  | .assign targets values pos => by
    rw [Stmt.unplaced, bindStmt, bindStmt]
    exact (unplaces_bindExprs targets).bind fun _ => (unplaces_bindExprs values).bind fun _ => .pure rfl
  | .compound op target value pos => by
    rw [Stmt.unplaced, bindStmt, bindStmt]
    exact (unplaces_bindExpr target).bind fun _ => (unplaces_bindExpr value).bind fun _ => .pure rfl
  | .expr e => by
    rw [Stmt.unplaced, bindStmt, bindStmt]
    exact (unplaces_bindExpr e).bind fun _ => .pure rfl
  | .block body => by
    rw [Stmt.unplaced, bindStmt, bindStmt]
    exact (unplaces_bindBlock body).bind fun _ => .pure rfl
  | .conditional condition body rest pos => by
    rw [Stmt.unplaced, bindStmt, bindStmt]
    exact (unplaces_bindExpr condition).bind fun _ => (unplaces_bindBlock body).bind fun _ =>
      (unplaces_bindAlternative rest).bind fun _ => .pure rfl
  | .whileLoop condition body pos => by
    rw [Stmt.unplaced, bindStmt, bindStmt]
    exact (unplaces_bindExpr condition).bind fun _ => (unplaces_bindBlock body).bind fun _ => .pure rfl
  | .repeatLoop body condition pos => by
    rw [Stmt.unplaced, bindStmt, bindStmt]
    exact unplaces_enter.bind fun _ => (unplaces_bindBody body).bind fun _ =>
      (unplaces_bindExpr condition).bind fun _ => unplaces_exit.bind fun _ => .pure rfl
  | .numericFor var start limit step body pos => by
    rw [Stmt.unplaced, bindStmt, bindStmt]
    exact (unplaces_bindExpr start).bind fun _ => (unplaces_bindExpr limit).bind fun _ =>
      (unplaces_bindOption step).bind fun _ => unplaces_enter.bind fun _ =>
      (unplaces_introduce var).bind fun _ => (unplaces_bindBlock body).bind fun _ =>
      unplaces_exit.bind fun _ => .pure rfl
  | .genericFor vars values body pos => by
    rw [Stmt.unplaced, bindStmt, bindStmt]
    refine (unplaces_bindExprs values).bind fun _ => unplaces_enter.bind fun _ => ?_
    refine (unplaces_mapM unplaces_introduce vars).bind fun _ => (unplaces_bindBlock body).bind fun _ => ?_
    refine unplaces_exit.bind fun _ => .pure ?_
    rw [Stmt.unplaced, List.map_id, id]
  | .ret values pos => by
    rw [Stmt.unplaced, bindStmt, bindStmt]
    exact (unplaces_bindExprs values).bind fun _ => .pure rfl
  | .leave pos => by
    rw [Stmt.unplaced, bindStmt, bindStmt]
    exact .pure rfl

/-- Binding statements does not look at places. -/
theorem unplaces_bindStmts : ∀ ss : List RawStmt,
    Unplaces (unplacedStmts id) (bindStmts ss) (bindStmts (unplacedStmts Binder.unplaced ss))
  | [] => by
    rw [unplacedStmts, bindStmts]
    exact .pure rfl
  | s :: ss => by
    rw [unplacedStmts, bindStmts, bindStmts]
    exact (unplaces_bindStmt s).bind fun _ => (unplaces_bindStmts ss).bind fun _ => .pure rfl

/-- Binding the rest of a conditional does not look at places. -/
theorem unplaces_bindAlternative : ∀ a : Alternative String Binder,
    Unplaces (Alternative.unplaced id) (bindAlternative a)
      (bindAlternative (a.unplaced Binder.unplaced))
  | .none => by
    rw [Alternative.unplaced, bindAlternative]
    exact .pure rfl
  | .otherwise body => by
    rw [Alternative.unplaced, bindAlternative, bindAlternative]
    exact (unplaces_bindBlock body).bind fun _ => .pure rfl
  | .elseIf condition body rest => by
    rw [Alternative.unplaced, bindAlternative, bindAlternative]
    exact (unplaces_bindExpr condition).bind fun _ => (unplaces_bindBlock body).bind fun _ =>
      (unplaces_bindAlternative rest).bind fun _ => .pure rfl

/-- Binding the statements of a block does not look at places. -/
theorem unplaces_bindBody : ∀ b : RawBlock,
    Unplaces (Block.unplaced id) (bindBody b) (bindBody (b.unplaced Binder.unplaced))
  | .mk pos stmts => by
    rw [Block.unplaced, bindBody, bindBody]
    exact (unplaces_bindStmts stmts).bind fun _ => .pure rfl

/-- **Binding a block** does not look at places. -/
theorem unplaces_bindBlock : ∀ b : RawBlock,
    Unplaces (Block.unplaced id) (bindBlock b) (bindBlock (b.unplaced Binder.unplaced))
  | .mk pos stmts => by
    rw [Block.unplaced, bindBlock, bindBlock]
    exact unplaces_enter.bind fun _ => (unplaces_bindStmts stmts).bind fun _ =>
      unplaces_exit.bind fun _ => .pure rfl

end

/-- **The program of a tree up to places** is determined by the tree up to places. -/
theorem Program.unplaced_ofBlock (body : RawBlock) :
    (ofBlock body).unplaced = ofBlock (body.unplaced Binder.unplaced) := by
  have hrun := unplaces_bindBlock body Scopes.empty
  have hempty : Scopes.empty.unplaced = Scopes.empty := by
    rw [Scopes.unplaced, Scopes.empty, Array.map_empty]
  rw [hempty] at hrun
  change _ = (⟨(bindBlock (body.unplaced Binder.unplaced) Scopes.empty).1,
    (bindBlock (body.unplaced Binder.unplaced) Scopes.empty).2.locals⟩ : Program)
  rw [hrun]
  rfl

end ScriptCore
