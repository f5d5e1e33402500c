import ScriptCore.Proofs.Renaming

set_option relaxedAutoImplicit false
set_option autoImplicit false

/-!
# Shapes of parsed trees

Not every tree is the tree of a text. Elements and calls stand behind names, elements, calls and
expressions in parentheses only, targets of assignments are names and elements, and a return or a break
is the last statement of its block. Moreover a tree whose operators are put side by side, without
parentheses, must fall apart into its operands again: this is a condition on the operators along the left
and the right edge of an operand.

All these are conditions on single nodes. A tree is grammatical if each of its nodes is.

## Main definitions

* `ScriptCore.Expr.OpensAbove`, `ScriptCore.Expr.ClosesAt` — the operators along the edges of an
  expression.
* `ScriptCore.Node.WellFormed` — what can stand as a callee, as a target, as a statement.
* `ScriptCore.Node.Regular`, `ScriptCore.Node.Grammatical` — nodes and trees of texts.

## Main results

* `ScriptCore.Node.Regular.wellFormed` — the nodes of texts are well formed.
* `ScriptCore.Node.wellFormed_rename` — names do not matter for that.
-/

namespace ScriptCore

/-! ## Operators and their tokens -/

/-- The token of a unary operator. -/
def UnaryOp.kind : UnaryOp → Token.Kind
  | neg => .minus
  | not => .kwNot
  | len => .hash

namespace BinaryOp

/-- The token of a binary operator. -/
def kind : BinaryOp → Token.Kind
  | add => .plus
  | sub => .minus
  | mul => .star
  | div => .slash
  | idiv => .slashSlash
  | mod => .percent
  | pow => .caret
  | concat => .dotDot
  | eq => .eqEq
  | ne => .neq
  | lt => .lt
  | le => .le
  | gt => .gt
  | ge => .ge
  | and => .kwAnd
  | or => .kwOr

/-- The token of the compound assignment with an operator; the operators without one have the token of
the plain assignment. -/
def assignment : BinaryOp → Token.Kind
  | add => .plusAssign
  | sub => .minusAssign
  | mul => .starAssign
  | div => .slashAssign
  | idiv => .slashSlashAssign
  | mod => .percentAssign
  | pow => .caretAssign
  | concat => .dotDotAssign
  | _ => .assign

end BinaryOp

@[simp]
lemma UnaryOp.ofKind?_kind (op : UnaryOp) : UnaryOp.ofKind? op.kind = some op := by
  cases op <;> rfl

@[simp]
lemma BinaryOp.ofKind?_kind (op : BinaryOp) : BinaryOp.ofKind? op.kind = some op := by
  cases op <;> rfl

lemma UnaryOp.kind_of_ofKind? {k : Token.Kind} {op : UnaryOp} (h : UnaryOp.ofKind? k = some op) :
    k = op.kind := by
  cases k <;> cases h <;> rfl

lemma BinaryOp.kind_of_ofKind? {k : Token.Kind} {op : BinaryOp} (h : BinaryOp.ofKind? k = some op) :
    k = op.kind := by
  cases k <;> cases h <;> rfl

lemma BinaryOp.kind_of_ofAssignment? {k : Token.Kind} {op : BinaryOp}
    (h : BinaryOp.ofAssignment? k = some op) : k = op.assignment := by
  cases k <;> cases h <;> rfl

/-! ## Classes of expressions and statements -/

variable {ρ β ρ' β' : Type}

namespace Expr

/-- Whether elements and calls can stand behind an expression: names, elements, calls and expressions in
parentheses. -/
def isHead : Expr ρ β → Bool
  | name .. | member .. | index .. | call .. | group .. => true
  | _ => false

/-- Whether an expression is an element under a fixed name. -/
def isMember : Expr ρ β → Bool
  | member .. => true
  | _ => false

/-- Whether an expression is a name with elements under fixed names behind it. -/
def isPath : Expr ρ β → Bool
  | name .. => true
  | member object _ _ => object.isPath
  | _ => false

/-- **The operators along the left edge** of an expression bind more tightly than the limit. -/
def OpensAbove (limit : Nat) : Expr ρ β → Prop
  | binary op left _ _ => limit < op.priority.1 ∧ left.OpensAbove limit
  | _ => True

/-- **The operands along the right edge** of an expression end before an operator of the given
priority. -/
def ClosesAt (priority : Nat) : Expr ρ β → Prop
  | unary _ operand _ => priority ≤ UnaryOp.priority ∧ operand.ClosesAt priority
  | binary op _ right _ => priority ≤ op.priority.2 ∧ right.ClosesAt priority
  | _ => True

/-- Expressions without operators outside parentheses and brackets. -/
def isSimple : Expr ρ β → Bool
  | unary .. | binary .. => false
  | _ => true

lemma opensAbove_of_isSimple {e : Expr ρ β} (h : e.isSimple) (limit : Nat) : e.OpensAbove limit := by
  cases e <;> trivial

lemma closesAt_of_isSimple {e : Expr ρ β} (h : e.isSimple) (priority : Nat) :
    e.ClosesAt priority := by
  cases e <;> trivial

/-- Every operator binds. -/
lemma opensAbove_zero : ∀ e : Expr ρ β, e.OpensAbove 0
  | .binary op left _ _ => ⟨by cases op <;> decide, opensAbove_zero left⟩
  | .nil _ | .varargs _ | .bool .. | .number .. | .string .. | .name .. | .member .. | .index ..
  | .call .. | .function _ | .table .. | .unary .. | .group .. => trivial

lemma isSimple_of_isHead {e : Expr ρ β} (h : e.isHead) : e.isSimple := by
  cases e <;> first | rfl | cases h

lemma isHead_of_isPath {e : Expr ρ β} (h : e.isPath) : e.isHead := by
  cases e <;> first | rfl | cases h

lemma isHead_of_isAssignable {e : Expr ρ β} (h : e.isAssignable) : e.isHead := by
  cases e <;> first | rfl | cases h

lemma isAssignable_of_isPath {e : Expr ρ β} (h : e.isPath) : e.isAssignable := by
  cases e <;> first | rfl | cases h

lemma isHead_of_isCall {e : Expr ρ β} (h : e.isCall) : e.isHead := by
  cases e <;> first | rfl | cases h

end Expr

/-- Whether a statement leaves its block: a return or a break. -/
def Stmt.isExit : Stmt ρ β → Bool
  | ret .. | leave .. => true
  | _ => false

/-! ## Well-formed nodes -/

/-- Objects and callees are names, elements, calls or expressions in parentheses. -/
def Expr.WellFormed : Expr ρ β → Prop
  | member object _ _ => object.isHead
  | index object _ _ => object.isHead
  | call callee _ _ _ => callee.isHead
  | _ => True

/-- Targets of assignments are names or elements, and expressions that are statements are calls. -/
def Stmt.WellFormed : Stmt ρ β → Prop
  | functionDecl target _ _ => target.isAssignable
  | assign targets _ _ => ∀ t ∈ targets, t.isAssignable
  | compound _ target _ _ => target.isAssignable
  | expr e => e.isCall
  | _ => True

/-- **A well-formed node.** In a block, a return or a break is the last statement. -/
def Node.WellFormed : Node ρ β → Prop
  | expr e => e.WellFormed
  | stmt s => s.WellFormed
  | block b => ∀ s ∈ b.stmts.dropLast, s.isExit = false
  | item _ => True

section Rename

variable (f : ρ → ρ') (g : β → β')

lemma Expr.isHead_rename (e : Expr ρ β) : (e.rename f g).isHead = e.isHead := by
  cases e <;> rfl

lemma Expr.isAssignable_rename (e : Expr ρ β) : (e.rename f g).isAssignable = e.isAssignable := by
  cases e <;> rfl

lemma Expr.isCall_rename (e : Expr ρ β) : (e.rename f g).isCall = e.isCall := by
  cases e <;> rfl

lemma Stmt.isExit_rename (s : Stmt ρ β) : (s.rename f g).isExit = s.isExit := by
  cases s <;> rfl

lemma renameExprs_eq_map (es : List (Expr ρ β)) : renameExprs f g es = es.map (Expr.rename f g) := by
  induction es with
  | nil => rfl
  | cons e es ih => rw [renameExprs, ih, List.map_cons]

lemma renameStmts_eq_map (ss : List (Stmt ρ β)) : renameStmts f g ss = ss.map (Stmt.rename f g) := by
  induction ss with
  | nil => rfl
  | cons s ss ih => rw [renameStmts, ih, List.map_cons]

lemma Expr.wellFormed_rename (e : Expr ρ β) : (e.rename f g).WellFormed ↔ e.WellFormed := by
  cases e with
  | member object => rw [rename, WellFormed, WellFormed, isHead_rename]
  | index object => rw [rename, WellFormed, WellFormed, isHead_rename]
  | call callee => rw [rename, WellFormed, WellFormed, isHead_rename]
  | _ => exact Iff.rfl

lemma Stmt.wellFormed_rename (s : Stmt ρ β) : (s.rename f g).WellFormed ↔ s.WellFormed := by
  cases s with
  | functionDecl target => rw [rename, WellFormed, WellFormed, Expr.isAssignable_rename]
  | assign targets =>
    rw [rename, WellFormed, WellFormed, renameExprs_eq_map, List.forall_mem_map]
    simp only [Expr.isAssignable_rename]
  | compound op target => rw [rename, WellFormed, WellFormed, Expr.isAssignable_rename]
  | expr e => rw [rename, WellFormed, WellFormed, Expr.isCall_rename]
  | _ => exact Iff.rfl

/-- **Names do not matter** for well-formedness. -/
theorem Node.wellFormed_rename (n : Node ρ β) : (n.rename f g).WellFormed ↔ n.WellFormed := by
  cases n with
  | expr e => exact e.wellFormed_rename f g
  | item i => exact Iff.rfl
  | stmt s => exact s.wellFormed_rename f g
  | block b =>
    obtain ⟨pos, stmts⟩ := b
    change (∀ s ∈ (renameStmts f g stmts).dropLast, s.isExit = false) ↔
      ∀ s ∈ stmts.dropLast, s.isExit = false
    rw [renameStmts_eq_map, ← List.map_dropLast, List.forall_mem_map]
    simp only [Stmt.isExit_rename]

end Rename

/-! ## Grammatical trees -/

/-- An expression that stands in the tree of a text: a number is that of a numeral, the callee of a method
call is an element, and the operands of an operator end and begin where it cuts them off. -/
def Expr.Regular : RawExpr → Prop
  | number value _ => ∃ lexeme, Numeral.literal? lexeme = some value
  | member object _ _ => object.isHead
  | index object _ _ => object.isHead
  | call callee _ isMethod _ => callee.isHead ∧ (isMethod → callee.isMember)
  | unary _ operand _ => operand.OpensAbove UnaryOp.priority
  | binary op left right _ => left.ClosesAt op.priority.1 ∧ right.OpensAbove op.priority.2
  | _ => True

/-- A statement that stands in the tree of a text. -/
def Stmt.Regular : RawStmt → Prop
  | localVars vars _ _ => vars ≠ []
  | functionDecl target _ _ => target.isPath
  | assign targets values _ => targets ≠ [] ∧ values ≠ [] ∧ ∀ t ∈ targets, t.isAssignable
  | compound op target _ _ => BinaryOp.ofAssignment? op.assignment = some op ∧ target.isAssignable
  | expr e => e.isCall
  | genericFor vars values _ _ => vars ≠ [] ∧ values ≠ []
  | _ => True

/-- **A node of the tree of a text.** -/
def Node.Regular : Node String Binder → Prop
  | expr e => e.Regular
  | stmt s => s.Regular
  | block b => ∀ s ∈ b.stmts.dropLast, s.isExit = false
  | item _ => True

/-- **A grammatical tree**: all its nodes are those of a text. -/
def Node.Grammatical (n : Node String Binder) : Prop := ∀ m ∈ n.nodes, m.Regular

/-- An expression all of whose nodes are those of a text. -/
abbrev Expr.Grammatical (e : RawExpr) : Prop := (Node.expr e).Grammatical

/-- A statement all of whose nodes are those of a text. -/
abbrev Stmt.Grammatical (s : RawStmt) : Prop := (Node.stmt s).Grammatical

/-- An item all of whose nodes are those of a text. -/
abbrev Item.Grammatical (i : Item String Binder) : Prop := (Node.item i).Grammatical

/-- A block all of whose nodes are those of a text. -/
abbrev Block.Grammatical (b : RawBlock) : Prop := (Node.block b).Grammatical

/-- The rest of a conditional all of whose nodes are those of a text. -/
abbrev Alternative.Grammatical (a : Alternative String Binder) : Prop := ∀ c ∈ a.children, c.Grammatical

namespace Node

/-- A tree is grammatical if its root is regular and its parts are grammatical. -/
lemma Grammatical.of_children {n : Node String Binder} (h : n.Regular)
    (hc : ∀ c ∈ n.children, c.Grammatical) : n.Grammatical := by
  intro m hm
  rw [nodes_eq, List.mem_cons] at hm
  rcases hm with rfl | hm
  · exact h
  · obtain ⟨c, hcmem, hm⟩ := List.mem_flatMap.1 hm
    exact hc c hcmem m hm

lemma Grammatical.regular {n : Node String Binder} (h : n.Grammatical) : n.Regular :=
  h n n.mem_nodes_self

lemma Grammatical.child {n c : Node String Binder} (h : n.Grammatical) (hc : c ∈ n.children) :
    c.Grammatical := by
  intro m hm
  refine h m ?_
  rw [nodes_eq]
  exact List.mem_cons_of_mem _ (List.mem_flatMap.2 ⟨c, hc, hm⟩)

/-- **The nodes of texts are well formed.** -/
theorem Regular.wellFormed {n : Node String Binder} (h : n.Regular) : n.WellFormed := by
  cases n with
  | expr e =>
    cases e with
    | member object => exact h
    | index object => exact h
    | call callee => exact h.1
    | _ => trivial
  | item i => trivial
  | stmt s =>
    cases s with
    | functionDecl target => exact Expr.isAssignable_of_isPath h
    | assign targets => exact h.2.2
    | compound op target => exact h.2
    | expr e => exact h
    | _ => trivial
  | block b => exact h

end Node

end ScriptCore
