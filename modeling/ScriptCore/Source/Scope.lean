import ScriptCore.Source.Parser

set_option autoImplicit false

/-!
# Binding names

The names of a parsed tree are bound to their declarations in one walk in the order of the text.
Declarations are numbered as they are met. Scopes are nested: a use of a name refers to the latest
declaration in the innermost scope that has one, and to the global of that name if none has.

* The variables of a `local` statement are numbered before its values are walked, and become
  visible behind them. A local function is visible in its own body.
* Parameters are visible in the body of their function, loop variables in the body of their loop.
* The condition of a `repeat` loop sees the variables of its body.

## Main definitions

* `ScriptCore.LocalDecl`, `ScriptCore.Program` — declarations, and programs with their names bound.
* `ScriptCore.Scopes` — the declarations met so far and the scopes that are open.
* `ScriptCore.bindBlock` — the walk.
* `ScriptCore.parseProgram` — the program of a source text.
-/

namespace ScriptCore

/-- A local declaration: its name and place, and the number of functions around it. -/
structure LocalDecl where
  name : String
  pos : Position
  depth : Nat
deriving DecidableEq, Repr

/-- A program with its names bound, and the local declarations by their numbers. -/
structure Program where
  body : BoundBlock
  locals : Array LocalDecl

/-- The state of the walk: the declarations so far, the open scopes with the innermost first and
the latest binding of each first, and the number of functions around the place. -/
structure Scopes where
  locals : Array LocalDecl
  visible : List (List (String × LocalId))
  depth : Nat

/-- Computations that bind names. -/
abbrev Binding := StateM Scopes

namespace Scopes

/-- No declaration, no scope. -/
def empty : Scopes := ⟨#[], [], 0⟩

/-- The declaration a name refers to. -/
def lookup (s : Scopes) (name : String) : Option LocalId :=
  s.visible.findSome? (·.lookup name)

/-- What a use of a name refers to. -/
def reference (s : Scopes) (name : String) : Reference :=
  match s.lookup name with
  | some id => .localVar id
  | none => .globalVar name

/-- A new declaration, not visible yet. -/
def declare (b : Binder) : Binding LocalId :=
  modifyGet fun s => (s.locals.size, { s with locals := s.locals.push ⟨b.name, b.pos, s.depth⟩ })

/-- Makes a declaration visible in the innermost scope. -/
def bind (name : String) (id : LocalId) : Binding Unit :=
  modify fun s =>
    match s.visible with
    | [] => s
    | scope :: rest => { s with visible := ((name, id) :: scope) :: rest }

/-- A new declaration, visible at once. -/
def introduce (b : Binder) : Binding LocalId := do
  let id ← declare b
  bind b.name id
  return id

/-- Opens a scope. -/
def enter : Binding Unit := modify fun s => { s with visible := [] :: s.visible }

/-- Closes the innermost scope. -/
def exit : Binding Unit := modify fun s => { s with visible := s.visible.tail }

/-- Enters a function: its scope, one function deeper. -/
def enterFunction : Binding Unit :=
  modify fun s => { s with visible := [] :: s.visible, depth := s.depth + 1 }

/-- Leaves a function. -/
def exitFunction : Binding Unit :=
  modify fun s => { s with visible := s.visible.tail, depth := s.depth - 1 }

end Scopes

open Scopes

mutual

/-- Binds the names of an expression. -/
def bindExpr : RawExpr → Binding BoundExpr
  | .nil pos => return .nil pos
  | .varargs pos => return .varargs pos
  | .bool value pos => return .bool value pos
  | .number value pos => return .number value pos
  | .string value pos => return .string value pos
  | .name n pos => return .name ((← get).reference n) pos
  | .member object member pos => return .member (← bindExpr object) member pos
  | .index object key pos => do
    let object ← bindExpr object
    return .index object (← bindExpr key) pos
  | .call callee args isMethod pos => do
    let callee ← bindExpr callee
    return .call callee (← bindExprs args) isMethod pos
  | .function f => return .function (← bindFunction f)
  | .table items pos => return .table (← bindItems items) pos
  | .unary op operand pos => return .unary op (← bindExpr operand) pos
  | .binary op left right pos => do
    let left ← bindExpr left
    return .binary op left (← bindExpr right) pos
  | .group inner pos => return .group (← bindExpr inner) pos

/-- Binds the names of expressions, from left to right. -/
def bindExprs : List RawExpr → Binding (List BoundExpr)
  | [] => return []
  | e :: es => do
    let e ← bindExpr e
    return e :: (← bindExprs es)

/-- Binds the names of an optional expression. -/
def bindOption : Option RawExpr → Binding (Option BoundExpr)
  | none => return none
  | some e => return some (← bindExpr e)

/-- Binds the names of an item of a table constructor. -/
def bindItem : Item String Binder → Binding (Item Reference LocalId)
  | .positional value => return .positional (← bindExpr value)
  | .named name value => return .named name (← bindExpr value)
  | .keyed key value => do
    let key ← bindExpr key
    return .keyed key (← bindExpr value)

/-- Binds the names of items, from left to right. -/
def bindItems : List (Item String Binder) → Binding (List (Item Reference LocalId))
  | [] => return []
  | i :: is => do
    let i ← bindItem i
    return i :: (← bindItems is)

/-- Binds the names of a function literal. Its parameters and its body share one scope. -/
def bindFunction : RawFunction → Binding (Function Reference LocalId)
  | .mk params variadic body pos => do
    enterFunction
    let params ← params.mapM introduce
    let body ← bindBody body
    exitFunction
    return .mk params variadic body pos

/-- Binds the names of a statement. -/
def bindStmt : RawStmt → Binding BoundStmt
  | .localVars vars values pos => do
    let ids ← vars.mapM declare
    let values ← bindExprs values
    (vars.zip ids).forM fun (b, id) => Scopes.bind b.name id
    return .localVars ids values pos
  | .localFunction var f pos => do
    let id ← introduce var
    return .localFunction id (← bindFunction f) pos
  | .functionDecl target f pos => do
    let target ← bindExpr target
    return .functionDecl target (← bindFunction f) pos
  | .assign targets values pos => do
    let targets ← bindExprs targets
    return .assign targets (← bindExprs values) pos
  | .compound op target value pos => do
    let target ← bindExpr target
    return .compound op target (← bindExpr value) pos
  | .expr e => return .expr (← bindExpr e)
  | .block body => return .block (← bindBlock body)
  | .conditional condition body rest pos => do
    let condition ← bindExpr condition
    let body ← bindBlock body
    return .conditional condition body (← bindAlternative rest) pos
  | .whileLoop condition body pos => do
    let condition ← bindExpr condition
    return .whileLoop condition (← bindBlock body) pos
  | .repeatLoop body condition pos => do
    enter
    let body ← bindBody body
    let condition ← bindExpr condition
    exit
    return .repeatLoop body condition pos
  | .numericFor var start limit step body pos => do
    let start ← bindExpr start
    let limit ← bindExpr limit
    let step ← bindOption step
    enter
    let id ← introduce var
    let body ← bindBlock body
    exit
    return .numericFor id start limit step body pos
  | .genericFor vars values body pos => do
    let values ← bindExprs values
    enter
    let ids ← vars.mapM introduce
    let body ← bindBlock body
    exit
    return .genericFor ids values body pos
  | .ret values pos => return .ret (← bindExprs values) pos
  | .leave pos => return .leave pos

/-- Binds the names of statements, from first to last. -/
def bindStmts : List RawStmt → Binding (List BoundStmt)
  | [] => return []
  | s :: ss => do
    let s ← bindStmt s
    return s :: (← bindStmts ss)

/-- Binds the names of the rest of a conditional. -/
def bindAlternative : Alternative String Binder → Binding (Alternative Reference LocalId)
  | .none => return .none
  | .otherwise body => return .otherwise (← bindBlock body)
  | .elseIf condition body rest => do
    let condition ← bindExpr condition
    let body ← bindBlock body
    return .elseIf condition body (← bindAlternative rest)

/-- Binds the names of the statements of a block in the scope that is open. -/
def bindBody : RawBlock → Binding BoundBlock
  | .mk pos stmts => return .mk pos (← bindStmts stmts)

/-- Binds the names of a block in a scope of its own. -/
def bindBlock : RawBlock → Binding BoundBlock
  | .mk pos stmts => do
    enter
    let stmts ← bindStmts stmts
    exit
    return .mk pos stmts

end

/-- The program of a parsed tree. -/
def Program.ofBlock (body : RawBlock) : Program :=
  let (body, scopes) := (bindBlock body).run Scopes.empty
  ⟨body, scopes.locals⟩

/-- The program of a source text. -/
def parseProgram (source : String) : Except ParseError Program := do
  let tokens ← tokenize source
  return Program.ofBlock (← parseChunk tokens)

end ScriptCore
