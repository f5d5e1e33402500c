import ScriptCore.Source.Tree

set_option autoImplicit false

/-!
# Trees as nodes in order

Every part of a tree is a node with a list of children in the order of the text. The nodes of a
tree are listed depth first, each before its children. Analyses that do not depend on the nesting
work on this list.

## Main definitions

* `ScriptCore.Node`, `ScriptCore.Node.children` — parts of a tree.
* `ScriptCore.Node.preorder`, `ScriptCore.Node.nodes` — all nodes of a tree in order.
* `ScriptCore.Block.exprs` — all expressions of a block in order.
-/

namespace ScriptCore

variable {ρ β : Type}

/-- A part of a tree. -/
inductive Node (ρ β : Type) : Type
  | expr (e : Expr ρ β)
  | item (i : Item ρ β)
  | stmt (s : Stmt ρ β)
  | block (b : Block ρ β)

/-- The parts of an expression. -/
def Expr.children : Expr ρ β → List (Node ρ β)
  | nil _ | varargs _ | bool .. | number .. | string .. | name .. => []
  | member object _ _ => [.expr object]
  | index object key _ => [.expr object, .expr key]
  | call callee args _ _ => .expr callee :: args.map .expr
  | function f => [.block f.body]
  | table items _ => items.map .item
  | unary _ operand _ => [.expr operand]
  | binary _ left right _ => [.expr left, .expr right]
  | group inner _ => [.expr inner]

/-- The parts of an item. -/
def Item.children : Item ρ β → List (Node ρ β)
  | positional value => [.expr value]
  | named _ value => [.expr value]
  | keyed key value => [.expr key, .expr value]

/-- The parts of the rest of a conditional. -/
def Alternative.children : Alternative ρ β → List (Node ρ β)
  | none => []
  | otherwise body => [.block body]
  | elseIf condition body rest => .expr condition :: .block body :: rest.children

/-- The parts of a statement. -/
def Stmt.children : Stmt ρ β → List (Node ρ β)
  | localVars _ values _ => values.map .expr
  | localFunction _ f _ => [.expr (.function f)]
  | functionDecl target f _ => [.expr target, .expr (.function f)]
  | assign targets values _ => targets.map .expr ++ values.map .expr
  | compound _ target value _ => [.expr target, .expr value]
  | expr e => [.expr e]
  | block body => [.block body]
  | conditional condition body rest _ => .expr condition :: .block body :: rest.children
  | whileLoop condition body _ => [.expr condition, .block body]
  | repeatLoop body condition _ => [.block body, .expr condition]
  | numericFor _ start limit step body _ =>
    .expr start :: .expr limit :: (step.toList.map .expr ++ [.block body])
  | genericFor _ values body _ => values.map .expr ++ [.block body]
  | ret values _ => values.map .expr
  | leave _ => []

namespace Node

/-- The parts of a node, in the order of the text. -/
def children : Node ρ β → List (Node ρ β)
  | expr e => e.children
  | item i => i.children
  | stmt s => s.children
  | block b => b.stmts.map .stmt

theorem sizeOf_le_of_mem_alternative {c : Node ρ β} :
    ∀ {a : Alternative ρ β}, c ∈ a.children → sizeOf c ≤ sizeOf a
  | .none, h => by simp [Alternative.children] at h
  | .otherwise body, h => by
    simp only [Alternative.children, List.mem_singleton] at h
    subst h; simp
  | .elseIf condition body rest, h => by
    simp only [Alternative.children, List.mem_cons] at h
    rcases h with rfl | rfl | h
    · simp; omega
    · simp; omega
    · have := sizeOf_le_of_mem_alternative h
      simp; omega

theorem sizeOf_le_of_mem_exprs {c : Node ρ β} {es : List (Expr ρ β)} (h : c ∈ es.map .expr) :
    sizeOf c ≤ sizeOf es := by
  obtain ⟨e, he, rfl⟩ := List.mem_map.1 h
  have := List.sizeOf_lt_of_mem he
  simp; omega

theorem sizeOf_le_of_mem_items {c : Node ρ β} {is : List (Item ρ β)} (h : c ∈ is.map .item) :
    sizeOf c ≤ sizeOf is := by
  obtain ⟨i, hi, rfl⟩ := List.mem_map.1 h
  have := List.sizeOf_lt_of_mem hi
  simp; omega

theorem sizeOf_lt_of_mem_expr {c : Node ρ β} {e : Expr ρ β} (h : c ∈ e.children) :
    sizeOf c < 1 + sizeOf e := by
  cases e with
  | nil | varargs | bool | number | string | name => simp [Expr.children] at h
  | member object member pos =>
    simp only [Expr.children, List.mem_singleton] at h
    subst h; simp; omega
  | index object key pos =>
    simp only [Expr.children, List.mem_cons, List.not_mem_nil, or_false] at h
    rcases h with rfl | rfl <;> simp <;> omega
  | call callee args isMethod pos =>
    simp only [Expr.children, List.mem_cons] at h
    rcases h with rfl | h
    · simp; omega
    · have := sizeOf_le_of_mem_exprs h
      simp; omega
  | function f =>
    obtain ⟨params, variadic, body, pos⟩ := f
    simp only [Expr.children, List.mem_singleton] at h
    subst h; simp [Function.body]; omega
  | table items pos =>
    have := sizeOf_le_of_mem_items h
    simp; omega
  | unary op operand pos =>
    simp only [Expr.children, List.mem_singleton] at h
    subst h; simp; omega
  | binary op left right pos =>
    simp only [Expr.children, List.mem_cons, List.not_mem_nil, or_false] at h
    rcases h with rfl | rfl <;> simp <;> omega
  | group inner pos =>
    simp only [Expr.children, List.mem_singleton] at h
    subst h; simp; omega

theorem sizeOf_lt_of_mem_stmt {c : Node ρ β} {s : Stmt ρ β} (h : c ∈ s.children) :
    sizeOf c < 1 + sizeOf s := by
  have hpos : ∀ p : Position, 1 ≤ sizeOf p := fun p => by cases p; simp; omega
  cases s with
  | localVars vars values pos =>
    have := sizeOf_le_of_mem_exprs h
    simp; omega
  | localFunction var f pos =>
    have := hpos pos
    simp only [Stmt.children, List.mem_singleton] at h
    subst h; simp; omega
  | functionDecl target f pos =>
    have := hpos pos
    simp only [Stmt.children, List.mem_cons, List.not_mem_nil, or_false] at h
    rcases h with rfl | rfl <;> simp <;> omega
  | assign targets values pos =>
    simp only [Stmt.children, List.mem_append] at h
    rcases h with h | h <;> have := sizeOf_le_of_mem_exprs h <;> simp <;> omega
  | compound op target value pos =>
    simp only [Stmt.children, List.mem_cons, List.not_mem_nil, or_false] at h
    rcases h with rfl | rfl <;> simp <;> omega
  | expr e =>
    simp only [Stmt.children, List.mem_singleton] at h
    subst h; simp
  | block body =>
    simp only [Stmt.children, List.mem_singleton] at h
    subst h; simp
  | conditional condition body rest pos =>
    simp only [Stmt.children, List.mem_cons] at h
    rcases h with rfl | rfl | h
    · simp; omega
    · simp; omega
    · have := sizeOf_le_of_mem_alternative h
      simp; omega
  | whileLoop condition body pos =>
    simp only [Stmt.children, List.mem_cons, List.not_mem_nil, or_false] at h
    rcases h with rfl | rfl <;> simp <;> omega
  | repeatLoop body condition pos =>
    simp only [Stmt.children, List.mem_cons, List.not_mem_nil, or_false] at h
    rcases h with rfl | rfl <;> simp <;> omega
  | numericFor var start limit step body pos =>
    simp only [Stmt.children, List.mem_cons, List.mem_append, List.not_mem_nil, or_false] at h
    rcases h with rfl | rfl | h | rfl
    · simp; omega
    · simp; omega
    · cases step with
      | none => simp at h
      | some e =>
        simp only [Option.toList_some, List.map_cons, List.map_nil, List.mem_singleton] at h
        subst h; simp; omega
    · simp; omega
  | genericFor vars values body pos =>
    simp only [Stmt.children, List.mem_append, List.mem_singleton] at h
    rcases h with h | rfl
    · have := sizeOf_le_of_mem_exprs h
      simp; omega
    · simp; omega
  | ret values pos =>
    have := sizeOf_le_of_mem_exprs h
    simp; omega
  | leave pos => simp [Stmt.children] at h

/-- A part of a node is smaller than the node. -/
theorem sizeOf_lt_of_mem_children {c n : Node ρ β} (h : c ∈ n.children) : sizeOf c < sizeOf n := by
  cases n with
  | expr e => simpa using sizeOf_lt_of_mem_expr h
  | item i =>
    cases i with
    | positional value =>
      simp only [children, Item.children, List.mem_singleton] at h
      subst h; simp
    | named name value =>
      simp only [children, Item.children, List.mem_singleton] at h
      subst h; simp only [expr.sizeOf_spec, item.sizeOf_spec, Item.named.sizeOf_spec]; omega
    | keyed key value =>
      simp only [children, Item.children, List.mem_cons, List.not_mem_nil, or_false] at h
      rcases h with rfl | rfl <;>
        simp only [expr.sizeOf_spec, item.sizeOf_spec, Item.keyed.sizeOf_spec] <;> omega
  | stmt s => simpa using sizeOf_lt_of_mem_stmt h
  | block b =>
    obtain ⟨pos, stmts⟩ := b
    simp only [children, Block.stmts, List.mem_map] at h
    obtain ⟨s, hs, rfl⟩ := h
    have := List.sizeOf_lt_of_mem hs
    simp; omega

/-- All nodes of a tree, each before its children, with their depth below a node at `depth`. -/
def preorder (depth : Nat) (n : Node ρ β) : List (Nat × Node ρ β) :=
  (depth, n) :: n.children.attach.flatMap fun c => preorder (depth + 1) c.1
termination_by sizeOf n
decreasing_by exact sizeOf_lt_of_mem_children c.2

theorem preorder_eq (depth : Nat) (n : Node ρ β) :
    n.preorder depth = (depth, n) :: n.children.flatMap (preorder (depth + 1)) := by
  rw [preorder]
  simp [List.flatMap_subtype]

/-- All nodes of a tree, each before its children. -/
def nodes (n : Node ρ β) : List (Node ρ β) := (n.preorder 0).map Prod.snd

/-- The expression a node is. -/
def expr? : Node ρ β → Option (Expr ρ β)
  | expr e => some e
  | _ => none

end Node

/-- All expressions of a block, each before its parts. -/
def Block.exprs (b : Block ρ β) : List (Expr ρ β) :=
  (Node.block b).nodes.filterMap Node.expr?

end ScriptCore
