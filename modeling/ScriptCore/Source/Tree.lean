import ScriptCore.Source.Position
import ScriptCore.Numeral.Binary64

set_option autoImplicit false

/-!
# Syntax trees

The trees of programs. They are parametrised over what stands for a use of a name (`ρ`) and for
its declaration (`β`): a parsed tree has the bare names, a bound tree the declarations they refer
to.

## Main definitions

* `ScriptCore.Expr`, `ScriptCore.Item`, `ScriptCore.Function`, `ScriptCore.Stmt`,
  `ScriptCore.Alternative`, `ScriptCore.Block` — the trees.
* `ScriptCore.RawBlock`, `ScriptCore.BoundBlock` — the two instances.
* `ScriptCore.Expr.isMultiValue`, `ScriptCore.Expr.isAssignable` — classes of expressions.
-/

namespace ScriptCore

/-- Operators with one operand. -/
inductive UnaryOp
  | neg | not | len
deriving DecidableEq, Repr

/-- Operators with two operands. -/
inductive BinaryOp
  | add | sub | mul | div | idiv | mod | pow | concat
  | eq | ne | lt | le | gt | ge
  | and | or
deriving DecidableEq, Repr

mutual

/-- Expressions. -/
inductive Expr (ρ β : Type) : Type
  | nil (pos : Position)
  | varargs (pos : Position)
  | bool (value : Bool) (pos : Position)
  | number (value : Binary64) (pos : Position)
  | string (value : String) (pos : Position)
  /-- A use of a name. -/
  | name (ref : ρ) (pos : Position)
  /-- An element under a fixed name, `object.member`. -/
  | member (object : Expr ρ β) (member : String) (pos : Position)
  /-- An element under a computed key, `object[key]`. -/
  | index (object key : Expr ρ β) (pos : Position)
  /-- A call; a method call passes the object of its callee, a `member`, as first argument. -/
  | call (callee : Expr ρ β) (args : List (Expr ρ β)) (isMethod : Bool) (pos : Position)
  | function (f : Function ρ β)
  | table (items : List (Item ρ β)) (pos : Position)
  | unary (op : UnaryOp) (operand : Expr ρ β) (pos : Position)
  | binary (op : BinaryOp) (left right : Expr ρ β) (pos : Position)
  /-- An expression in parentheses. -/
  | group (inner : Expr ρ β) (pos : Position)

/-- Items of a table constructor. -/
inductive Item (ρ β : Type) : Type
  | positional (value : Expr ρ β)
  | named (name : String) (value : Expr ρ β)
  | keyed (key value : Expr ρ β)

/-- Function literals: declared parameters, whether more arguments are taken, and the body. -/
inductive Function (ρ β : Type) : Type
  | mk (params : List β) (variadic : Bool) (body : Block ρ β) (pos : Position)

/-- Statements. -/
inductive Stmt (ρ β : Type) : Type
  | localVars (vars : List β) (values : List (Expr ρ β)) (pos : Position)
  | localFunction (var : β) (f : Function ρ β) (pos : Position)
  | functionDecl (target : Expr ρ β) (f : Function ρ β) (pos : Position)
  | assign (targets values : List (Expr ρ β)) (pos : Position)
  | compound (op : BinaryOp) (target value : Expr ρ β) (pos : Position)
  | expr (e : Expr ρ β)
  | block (body : Block ρ β)
  | conditional (condition : Expr ρ β) (body : Block ρ β) (rest : Alternative ρ β) (pos : Position)
  | whileLoop (condition : Expr ρ β) (body : Block ρ β) (pos : Position)
  | repeatLoop (body : Block ρ β) (condition : Expr ρ β) (pos : Position)
  | numericFor (var : β) (start limit : Expr ρ β) (step : Option (Expr ρ β)) (body : Block ρ β)
      (pos : Position)
  | genericFor (vars : List β) (values : List (Expr ρ β)) (body : Block ρ β) (pos : Position)
  | ret (values : List (Expr ρ β)) (pos : Position)
  | leave (pos : Position)

/-- What a conditional does if its conditions so far fail. -/
inductive Alternative (ρ β : Type) : Type
  | none
  | otherwise (body : Block ρ β)
  | elseIf (condition : Expr ρ β) (body : Block ρ β) (rest : Alternative ρ β)

/-- Blocks of statements. -/
inductive Block (ρ β : Type) : Type
  | mk (pos : Position) (stmts : List (Stmt ρ β))

end

variable {ρ β : Type}

/-! ## Parsed and bound trees -/

/-- A declared name with its place. -/
structure Binder where
  name : String
  pos : Position
deriving DecidableEq, Repr

/-- The number of a local declaration, in the order of declaration. -/
abbrev LocalId := Nat

/-- What a use of a name refers to. -/
inductive Reference
  | localVar (id : LocalId)
  | globalVar (name : String)
deriving DecidableEq, Repr

/-- Expressions as parsed. -/
abbrev RawExpr := Expr String Binder

/-- Statements as parsed. -/
abbrev RawStmt := Stmt String Binder

/-- Blocks as parsed. -/
abbrev RawBlock := Block String Binder

/-- Expressions whose names are bound. -/
abbrev BoundExpr := Expr Reference LocalId

/-- Statements whose names are bound. -/
abbrev BoundStmt := Stmt Reference LocalId

/-- Blocks whose names are bound. -/
abbrev BoundBlock := Block Reference LocalId

/-! ## Parts of a tree -/

namespace Function

/-- The declared parameters. -/
def params : Function ρ β → List β
  | mk params _ _ _ => params

/-- Whether the function takes more arguments than it declares parameters. -/
def variadic : Function ρ β → Bool
  | mk _ variadic _ _ => variadic

/-- The body. -/
def body : Function ρ β → Block ρ β
  | mk _ _ body _ => body

/-- The place of the literal. -/
def pos : Function ρ β → Position
  | mk _ _ _ pos => pos

end Function

namespace Block

/-- The place of the first token of the block. -/
def pos : Block ρ β → Position
  | mk pos _ => pos

/-- The statements of the block. -/
def stmts : Block ρ β → List (Stmt ρ β)
  | mk _ stmts => stmts

end Block

namespace Expr

/-- The place an expression is reported at: its first token, but the operator of a binary
expression and the first token behind the object of an element or a call. -/
def pos : Expr ρ β → Position
  | nil pos | varargs pos | bool _ pos | number _ pos | string _ pos | name _ pos
  | member _ _ pos | index _ _ pos | call _ _ _ pos | table _ pos | unary _ _ pos
  | binary _ _ _ pos | group _ pos => pos
  | function f => f.pos

/-- Whether an expression may have any number of values: calls and the extra arguments. -/
def isMultiValue : Expr ρ β → Bool
  | call .. | varargs _ => true
  | _ => false

/-- Whether an expression is a call. -/
def isCall : Expr ρ β → Bool
  | call .. => true
  | _ => false

/-- Whether an expression can be assigned to: names and elements. -/
def isAssignable : Expr ρ β → Bool
  | name .. | member .. | index .. => true
  | _ => false

end Expr

end ScriptCore
