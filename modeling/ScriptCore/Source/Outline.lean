import ScriptCore.Source.Node
import ScriptCore.Source.Scope

set_option autoImplicit false

/-!
# Outlines

An outline shows a bound tree as rows in the order of its nodes. A row has the depth of its node,
a tag for its form, its place if it has one, and the attributes that are not nodes of their own.

## Main definitions

* `ScriptCore.Outline.Row`, `ScriptCore.Program.outline` — the rows of a program.
* `ScriptCore.Expr.tag` — the tag of an expression.
-/

namespace ScriptCore

/-- The name of a unary operator in outlines. -/
def UnaryOp.label : UnaryOp → String
  | neg => "Neg"
  | not => "Not"
  | len => "Len"

/-- The name of a binary operator in outlines. -/
def BinaryOp.label : BinaryOp → String
  | add => "Add"
  | sub => "Sub"
  | mul => "Mul"
  | div => "Div"
  | idiv => "IDiv"
  | mod => "Mod"
  | pow => "Pow"
  | concat => "Concat"
  | eq => "Eq"
  | ne => "Ne"
  | lt => "Lt"
  | le => "Le"
  | gt => "Gt"
  | ge => "Ge"
  | and => "And"
  | or => "Or"

namespace Outline

/-- A property of a node that is shown in its row. -/
inductive Attribute
  | count (n : Nat)
  | flag (b : Bool)
  | text (s : String)
  | number (x : Binary64)
  | id (i : LocalId)
  | ids (is : List LocalId)

/-- The row of a node. -/
structure Row where
  depth : Nat
  tag : String
  pos : Option Position
  attributes : List Attribute

end Outline

open Outline

namespace Expr

/-- The tag of an expression. -/
def tag : BoundExpr → String
  | nil _ => "Nil"
  | varargs _ => "Varargs"
  | bool .. => "Bool"
  | number .. => "Number"
  | string .. => "Str"
  | name (.localVar _) _ => "Local"
  | name (.globalVar _) _ => "Global"
  | member .. => "IndexName"
  | index .. => "IndexExpr"
  | call .. => "Call"
  | function _ => "Function"
  | table .. => "Table"
  | unary .. => "Unary"
  | binary .. => "Binary"
  | group .. => "Group"

/-- The attributes of an expression. -/
def attributes : BoundExpr → List Attribute
  | nil _ | varargs _ | index .. | group .. => []
  | bool value _ => [.flag value]
  | number value _ => [.number value]
  | string value _ => [.text value]
  | name (.localVar i) _ => [.id i]
  | name (.globalVar n) _ => [.text n]
  | member _ m _ => [.text m]
  | call _ args isMethod _ => [.flag isMethod, .count args.length]
  | function f => [.ids f.params, .flag f.variadic]
  | table items _ => [.count items.length]
  | unary op _ _ => [.text op.label]
  | binary op _ _ _ => [.text op.label]

end Expr

/-- The number of conditions of the rest of a conditional. -/
def Alternative.conditions {ρ β : Type} : Alternative ρ β → Nat
  | none | otherwise _ => 0
  | elseIf _ _ rest => rest.conditions + 1

/-- Whether the rest of a conditional ends with a block without a condition. -/
def Alternative.hasElse {ρ β : Type} : Alternative ρ β → Bool
  | none => false
  | otherwise _ => true
  | elseIf _ _ rest => rest.hasElse

/-- The tag, place and attributes of a statement. -/
def Stmt.describe : BoundStmt → String × Option Position × List Attribute
  | localVars vars values pos => ("Local", pos, [.ids vars, .count values.length])
  | localFunction var _ pos => ("LocalFunction", pos, [.id var])
  | functionDecl _ _ pos => ("FunctionStmt", pos, [])
  | assign targets values pos => ("Assign", pos, [.count targets.length, .count values.length])
  | compound op _ _ pos => ("CompoundAssign", pos, [.text op.label])
  | expr _ => ("ExprStmt", none, [])
  | block _ => ("Do", none, [])
  | conditional _ _ rest pos =>
    ("If", pos, [.count (rest.conditions + 1), .flag rest.hasElse])
  | whileLoop _ _ pos => ("While", pos, [])
  | repeatLoop _ _ pos => ("Repeat", pos, [])
  | numericFor var _ _ step _ pos => ("NumericFor", pos, [.id var, .flag step.isSome])
  | genericFor vars values _ pos => ("GenericFor", pos, [.ids vars, .count values.length])
  | ret values pos => ("Return", pos, [.count values.length])
  | leave pos => ("Break", pos, [])

/-- The tag, place and attributes of a node. -/
def Node.describe : Node Reference LocalId → String × Option Position × List Attribute
  | expr e => (e.tag, e.pos, e.attributes)
  | item (.positional _) => ("Positional", none, [])
  | item (.named name _) => ("Named", none, [.text name])
  | item (.keyed _ _) => ("Keyed", none, [])
  | stmt s => s.describe
  | block b => ("Block", b.pos, [.count b.stmts.length])

/-- The rows of a program, from its body at depth zero. -/
def Program.outline (p : Program) : List Row :=
  ((Node.block p.body).preorder 0).map fun (depth, n) =>
    let (tag, pos, attributes) := n.describe
    ⟨depth, tag, pos, attributes⟩

end ScriptCore
