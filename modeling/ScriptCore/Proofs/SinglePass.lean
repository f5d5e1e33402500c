import ScriptCore.Source.Scope

set_option relaxedAutoImplicit false
set_option autoImplicit false

/-!
# Parsing and binding in one pass

A parser that binds the names while it reads them. It stands at an index into the tokens, looks at the token
there and at times at the one behind it, opens and closes scopes as it comes to them, and numbers declarations
as it reads their names. Where it stops without a result, its index and its scopes are those of that moment, and
asking for a token behind the last one is a failure of its own.

The procedures are written as rules over the procedures they call behind a token they have taken, so a level of
the rules is a depth of nested calls. Loops are procedures that call themselves.

## Main definitions

* `ScriptCore.SinglePass.Cursor`, `ScriptCore.SinglePass.Halt`, `ScriptCore.SinglePass.Pass` — places, failures
  and parsers.
* `ScriptCore.SinglePass.within` — a parser in a scope of its own, which is closed whatever happens.
* `ScriptCore.SinglePass.Passes`, `ScriptCore.SinglePass.rules`, `ScriptCore.SinglePass.level` — the procedures.
* `ScriptCore.SinglePass.parse` — the program of a source text.
-/

namespace ScriptCore.SinglePass

/-- Where a parser stands: the index of a token, and the scopes. -/
structure Cursor where
  index : Nat
  scopes : Scopes

/-- Why a parser stops without a result. -/
inductive Halt
  /-- The source is refused. -/
  | refused (e : ParseError)
  /-- A token behind the last one is asked for. -/
  | outOfRange

/-- Parsers over the tokens of a source. They keep their place also where they stop. -/
abbrev Pass := ReaderT (List Token) (ExceptT Halt (StateM Cursor))

/-! ## Tokens -/

/-- The token some way behind the one the parser stands at. -/
def tokenAt (offset : Nat) : Pass Token := do
  match (← read)[(← get).index + offset]? with
  | some t => return t
  | none => throw .outOfRange

/-- The token the parser stands at. -/
def peek : Pass Token := tokenAt 0

/-- Takes the token the parser stands at. The end of the input is not taken. -/
def advance : Pass Token := do
  let t ← peek
  if t.kind = .eof then return t
  modify fun c => { c with index := c.index + 1 }
  return t

/-- The kind of the token the parser stands at. -/
def kind : Pass Token.Kind := return (← peek).kind

/-- The place of the token the parser stands at. -/
def here : Pass Position := return (← peek).pos

/-- Whether the token behind the one the parser stands at is of kind `k`. -/
def nextIs (k : Token.Kind) : Pass Bool := return (← tokenAt 1).kind = k

/-- Refuses the source for the given cause at the given place. -/
def failAt {α : Type} (pos : Position) (cause : ParseError.Cause) : Pass α := throw (.refused ⟨pos, cause⟩)

/-- Takes a token of kind `k` if the parser stands at one. -/
def eat (k : Token.Kind) : Pass Bool := do
  if (← kind) = k then
    let _ ← advance
    return true
  else return false

/-- Takes a token that must be of kind `k`. -/
def expect (k : Token.Kind) : Pass Token := do
  let t ← peek
  if t.kind = k then advance
  else failAt t.pos (.expected k t)

/-- Takes a name and gives it with its place. -/
def binder : Pass Binder := do
  let t ← expect .ident
  return ⟨t.lexeme, t.pos⟩

/-- Takes a name. -/
def ident : Pass String := return (← expect .ident).lexeme

/-! ## Scopes -/

/-- Changes the scopes. -/
def onScopes {α : Type} (change : Binding α) : Pass α :=
  modifyGet fun c => ((change c.scopes).1, { c with scopes := (change c.scopes).2 })

/-- A use of a name, bound where it is read. -/
def nameExpr (name : String) (pos : Position) : Pass BoundExpr :=
  return .name ((← get).scopes.reference name) pos

/-- **A parser in a scope of its own.** The scope is opened before it and closed behind it, also where the
parser stops without a result. -/
def within {α : Type} (opening closing : Binding Unit) (body : Pass α) : Pass α := do
  onScopes opening
  try body finally onScopes closing

/-! ## The procedures -/

/-- The procedures that are called behind a token. -/
structure Passes where
  /-- Statements up to the end of their block. -/
  stmts : Pass (List BoundStmt)
  /-- The rest of a conditional behind one of its blocks. -/
  alternative : Pass (Alternative Reference LocalId)
  /-- An expression of operators that bind more tightly than the limit. -/
  expr : (limit : Nat) → Pass BoundExpr
  /-- The operators behind a left operand that bind more tightly than the limit. -/
  operators : (limit : Nat) → BoundExpr → Pass BoundExpr
  /-- The elements and calls behind an expression. -/
  suffixes : BoundExpr → Pass BoundExpr
  /-- Expressions separated by commas. -/
  exprs : Pass (List BoundExpr)
  /-- The expressions behind the first of a list, each after a comma. -/
  moreExprs : Pass (List BoundExpr)
  /-- The targets behind the first of an assignment, each after a comma. -/
  moreTargets : Pass (List BoundExpr)
  /-- The names behind the first of a `local` statement, each after a comma, and their declarations. -/
  moreLocals : Pass (List Binder × List LocalId)
  /-- The names behind the first of a loop, each after a comma. -/
  moreNames : Pass (List Binder)
  /-- The members behind the first name of a function statement, and whether the last is a method. -/
  path : Position → BoundExpr → Pass (BoundExpr × Bool)
  /-- Parameters, and whether the list ends with the extra arguments. -/
  params : Pass (List LocalId × Bool)
  /-- The items of a table constructor up to its closing brace. -/
  items : Pass (List (Item Reference LocalId))

open Grammar (endsBlock)
open Scopes

/-! ### Expressions -/

/-- A name, or an expression in parentheses. -/
def primary (g : Passes) : Pass BoundExpr := do
  let t ← peek
  match t.kind with
  | .ident =>
    let _ ← advance
    return ← nameExpr t.lexeme t.pos
  | .lParen =>
    let _ ← advance
    let inner ← g.expr 0
    let _ ← expect .rParen
    return .group inner t.pos
  | _ => failAt t.pos (.badSymbol t.lexeme)

/-- A table constructor. -/
def table (g : Passes) : Pass BoundExpr := do
  let brace ← expect .lBrace
  let items ← g.items
  let _ ← expect .rBrace
  return .table items brace.pos

/-- The arguments of a call: a string, a table, or a list in parentheses. -/
def args (g : Passes) : Pass (List BoundExpr) := do
  let t ← peek
  match t.kind with
  | .string =>
    let _ ← advance
    return [.string t.lexeme t.pos]
  | .lBrace => return [← table g]
  | _ =>
    let _ ← expect .lParen
    if ← eat .rParen then return []
    let es ← g.exprs
    let _ ← expect .rParen
    return es

/-- The elements and calls behind an expression. -/
def suffixesRule (g : Passes) (e : BoundExpr) : Pass BoundExpr := do
  let t ← peek
  match t.kind with
  | .dot =>
    let _ ← advance
    let member ← ident
    g.suffixes (.member e member t.pos)
  | .lBracket =>
    let _ ← advance
    let key ← g.expr 0
    let _ ← expect .rBracket
    g.suffixes (.index e key t.pos)
  | .colon =>
    let _ ← advance
    let member ← ident
    let es ← args g
    g.suffixes (.call (.member e member t.pos) es true t.pos)
  | .lParen | .string | .lBrace =>
    let es ← args g
    g.suffixes (.call e es false t.pos)
  | _ => return e

/-- A primary expression with the elements and calls behind it. -/
def suffixed (g : Passes) : Pass BoundExpr := do
  suffixesRule g (← primary g)

/-- The statements of a block with the place of its first token, in the scope that is open. -/
def body (g : Passes) : Pass BoundBlock := do
  let pos ← here
  return .mk pos (← g.stmts)

/-- A block in a scope of its own. -/
def block (g : Passes) : Pass BoundBlock := within enter exit (body g)

/-- Parameters up to the closing parenthesis, each visible behind its name. -/
def paramsRule (g : Passes) : Pass (List LocalId × Bool) := do
  if ← eat .ellipsis then return ([], true)
  let b ← binder
  let id ← onScopes (introduce b)
  if ← eat .comma then
    let (ids, variadic) ← g.params
    return (id :: ids, variadic)
  return ([id], false)

/-- The parameters and the body of a function at `pos`, in the scope that is open, with the given parameters in
front. -/
def signature (g : Passes) (pos : Position) (receiver : List Binder) :
    Pass (Function Reference LocalId) := do
  let self ← onScopes (receiver.mapM introduce)
  let _ ← expect .lParen
  let (params, variadic) ← if (← kind) = .rParen then pure ([], false) else paramsRule g
  let _ ← expect .rParen
  let body ← body g
  let _ ← expect .kwEnd
  return .mk (self ++ params) variadic body pos

/-- The parameters and the body of a function at `pos`, in a scope of their own. -/
def function (g : Passes) (pos : Position) (receiver : List Binder) : Pass (Function Reference LocalId) :=
  within enterFunction exitFunction (signature g pos receiver)

/-- An expression without operators. -/
def simple (g : Passes) : Pass BoundExpr := do
  let t ← peek
  match t.kind with
  | .number =>
    let _ ← advance
    match Numeral.literal? t.lexeme with
    | some value => return .number value t.pos
    | none => failAt t.pos .noValue
  | .string =>
    let _ ← advance
    return .string t.lexeme t.pos
  | .kwNil =>
    let _ ← advance
    return .nil t.pos
  | .kwTrue =>
    let _ ← advance
    return .bool true t.pos
  | .kwFalse =>
    let _ ← advance
    return .bool false t.pos
  | .ellipsis =>
    let _ ← advance
    return .varargs t.pos
  | .lBrace => table g
  | .kwFunction =>
    let _ ← advance
    return .function (← function g t.pos [])
  | _ => suffixed g

/-- The operators behind a left operand that bind more tightly than `limit`. -/
def operatorsRule (g : Passes) (limit : Nat) (left : BoundExpr) : Pass BoundExpr := do
  let t ← peek
  match BinaryOp.ofKind? t.kind with
  | some op =>
    if limit < op.priority.1 then
      let _ ← advance
      let right ← g.expr op.priority.2
      g.operators limit (.binary op left right t.pos)
    else return left
  | none => return left

/-- An expression of operators that bind more tightly than `limit`. -/
def exprRule (g : Passes) (limit : Nat) : Pass BoundExpr := do
  let t ← peek
  let left ← match UnaryOp.ofKind? t.kind with
    | some op => do
      let _ ← advance
      let operand ← g.expr UnaryOp.priority
      pure (.unary op operand t.pos)
    | none => simple g
  operatorsRule g limit left

/-- The expressions behind the first of a list. -/
def moreExprsRule (g : Passes) : Pass (List BoundExpr) := do
  if ← eat .comma then
    let e ← g.expr 0
    return e :: (← g.moreExprs)
  return []

/-- Expressions separated by commas. -/
def exprsRule (g : Passes) : Pass (List BoundExpr) := do
  let e ← exprRule g 0
  return e :: (← moreExprsRule g)

/-- An item of a table constructor. Only behind a name is the next token looked at. -/
def item (g : Passes) : Pass (Item Reference LocalId) := do
  let t ← peek
  if t.kind = .lBracket then
    let _ ← advance
    let key ← g.expr 0
    let _ ← expect .rBracket
    let _ ← expect .assign
    return .keyed key (← g.expr 0)
  let named ← if t.kind = .ident then nextIs .assign else pure false
  if named then
    let _ ← advance
    let _ ← advance
    return .named t.lexeme (← g.expr 0)
  return .positional (← exprRule g 0)

/-- The items of a table constructor up to its closing brace. -/
def itemsRule (g : Passes) : Pass (List (Item Reference LocalId)) := do
  if (← kind) = .rBrace then return []
  let i ← item g
  if ← eat .comma then return i :: (← g.items)
  if ← eat .semicolon then return i :: (← g.items)
  return [i]

/-! ### Statements -/

/-- The names behind the first of a loop. -/
def moreNamesRule (g : Passes) : Pass (List Binder) := do
  if ← eat .comma then
    let b ← binder
    return b :: (← g.moreNames)
  return []

/-- The names behind the first of a `local` statement. Each is declared where it is read. -/
def moreLocalsRule (g : Passes) : Pass (List Binder × List LocalId) := do
  if ← eat .comma then
    let b ← binder
    let id ← onScopes (declare b)
    let (bs, ids) ← g.moreLocals
    return (b :: bs, id :: ids)
  return ([], [])

/-- Local variables behind `local`. They become visible behind their values. -/
def localVars (g : Passes) (pos : Position) : Pass BoundStmt := do
  let b ← binder
  let id ← onScopes (declare b)
  let (bs, ids) ← moreLocalsRule g
  let values ← if ← eat .assign then exprsRule g else pure []
  onScopes (((b :: bs).zip (id :: ids)).forM fun (b, id) => Scopes.bind b.name id)
  return .localVars (id :: ids) values pos

/-- A local function behind `local function`, visible in its own body. -/
def localFunction (g : Passes) (pos : Position) : Pass BoundStmt := do
  let b ← binder
  let id ← onScopes (introduce b)
  return .localFunction id (← function g pos []) pos

/-- The members behind the first name of a function statement at `pos`. -/
def pathRule (g : Passes) (pos : Position) (target : BoundExpr) : Pass (BoundExpr × Bool) := do
  if ← eat .dot then
    let member ← ident
    g.path pos (.member target member pos)
  else if ← eat .colon then
    let member ← ident
    return (.member target member pos, true)
  else return (target, false)

/-- A function statement behind its keyword. -/
def functionDecl (g : Passes) (pos : Position) : Pass BoundStmt := do
  let b ← binder
  let first ← nameExpr b.name b.pos
  let (target, isMethod) ← pathRule g pos first
  let f ← function g pos (if isMethod then [⟨"self", pos⟩] else [])
  return .functionDecl target f pos

/-- The rest of a conditional behind one of its blocks. -/
def alternativeRule (g : Passes) : Pass (Alternative Reference LocalId) := do
  if ← eat .kwElseIf then
    let condition ← g.expr 0
    let _ ← expect .kwThen
    let body ← block g
    return .elseIf condition body (← g.alternative)
  else if ← eat .kwElse then return .otherwise (← block g)
  else return .none

/-- A conditional behind `if`. -/
def conditional (g : Passes) (pos : Position) : Pass BoundStmt := do
  let condition ← g.expr 0
  let _ ← expect .kwThen
  let body ← block g
  let rest ← alternativeRule g
  let _ ← expect .kwEnd
  return .conditional condition body rest pos

/-- The body of a loop, in a scope with its variables. -/
def loopBody {α : Type} (g : Passes) (vars : Binding α) : Pass (α × BoundBlock) :=
  within enter exit do
    let ids ← onScopes vars
    return (ids, ← block g)

/-- A loop behind `for`. -/
def forLoop (g : Passes) (pos : Position) : Pass BoundStmt := do
  let b ← binder
  if ← eat .assign then
    let start ← g.expr 0
    let _ ← expect .comma
    let limit ← g.expr 0
    let step ← if ← eat .comma then pure (some (← g.expr 0)) else pure none
    let _ ← expect .kwDo
    let (id, body) ← loopBody g (introduce b)
    let _ ← expect .kwEnd
    return .numericFor id start limit step body pos
  else
    let bs ← moreNamesRule g
    let _ ← expect .kwIn
    let values ← g.exprs
    let _ ← expect .kwDo
    let (ids, body) ← loopBody g ((b :: bs).mapM introduce)
    let _ ← expect .kwEnd
    return .genericFor ids values body pos

/-- Refuses a target that cannot be assigned to. -/
def checkAssignable (e : BoundExpr) : Pass Unit :=
  if e.isAssignable then pure () else failAt e.pos .notAssignable

/-- The targets behind the first of an assignment. -/
def moreTargetsRule (g : Passes) : Pass (List BoundExpr) := do
  if ← eat .comma then
    let e ← suffixed g
    return e :: (← g.moreTargets)
  return []

/-- An assignment or a call at `pos`. -/
def exprStmt (g : Passes) (pos : Position) : Pass BoundStmt := do
  let first ← suffixed g
  let t ← peek
  match BinaryOp.ofAssignment? t.kind with
  | some op =>
    let _ ← advance
    checkAssignable first
    return .compound op first (← g.expr 0) pos
  | none =>
    if t.kind = .assign ∨ t.kind = .comma then
      let targets := first :: (← moreTargetsRule g)
      let _ ← expect .assign
      targets.forM checkAssignable
      return .assign targets (← g.exprs) pos
    else if first.isCall then return .expr first
    else failAt pos .notStatement

/-- A `repeat` loop behind its keyword. Its condition sees the variables of its body. -/
def repeatLoop (g : Passes) (pos : Position) : Pass BoundStmt :=
  within enter exit do
    let body ← body g
    let _ ← expect .kwUntil
    return .repeatLoop body (← g.expr 0) pos

/-- A statement. -/
def stmt (g : Passes) : Pass BoundStmt := do
  let t ← peek
  match t.kind with
  | .kwLocal =>
    let _ ← advance
    if ← eat .kwFunction then localFunction g t.pos else localVars g t.pos
  | .kwFunction =>
    let _ ← advance
    functionDecl g t.pos
  | .kwDo =>
    let _ ← advance
    let body ← block g
    let _ ← expect .kwEnd
    return .block body
  | .kwIf =>
    let _ ← advance
    conditional g t.pos
  | .kwWhile =>
    let _ ← advance
    let condition ← g.expr 0
    let _ ← expect .kwDo
    let body ← block g
    let _ ← expect .kwEnd
    return .whileLoop condition body t.pos
  | .kwRepeat =>
    let _ ← advance
    repeatLoop g t.pos
  | .kwFor =>
    let _ ← advance
    forLoop g t.pos
  | .kwReturn =>
    let _ ← advance
    let k ← kind
    if endsBlock k ∨ k = .semicolon then return .ret [] t.pos
    return .ret (← g.exprs) t.pos
  | .kwBreak =>
    let _ ← advance
    return .leave t.pos
  | _ => exprStmt g t.pos

/-- Statements up to the end of their block. -/
def stmtsRule (g : Passes) : Pass (List BoundStmt) := do
  let k ← kind
  if endsBlock k then return []
  let s ← stmt g
  let _ ← eat .semicolon
  if k = .kwReturn ∨ k = .kwBreak then return [s]
  return s :: (← g.stmts)

/-! ### Levels -/

/-- The procedures that call those of `g`. -/
def rules (g : Passes) : Passes where
  stmts := stmtsRule g
  alternative := alternativeRule g
  expr := exprRule g
  operators := operatorsRule g
  suffixes := suffixesRule g
  exprs := exprsRule g
  moreExprs := moreExprsRule g
  moreTargets := moreTargetsRule g
  moreLocals := moreLocalsRule g
  moreNames := moreNamesRule g
  path := pathRule g
  params := paramsRule g
  items := itemsRule g

/-- Refuses every input. -/
def tooDeep {α : Type} : Pass α := do failAt (← here) .tooDeep

/-- The procedures that parse nothing. -/
def bottom : Passes where
  stmts := tooDeep
  alternative := tooDeep
  expr _ := tooDeep
  operators _ _ := tooDeep
  suffixes _ := tooDeep
  exprs := tooDeep
  moreExprs := tooDeep
  moreTargets := tooDeep
  moreLocals := tooDeep
  moreNames := tooDeep
  path _ _ := tooDeep
  params := tooDeep
  items := tooDeep

/-- The procedures that may nest `n` calls. -/
def level (n : Nat) : Passes := Nat.repeat rules n bottom

/-- A whole program: its statements, and nothing behind them. -/
def chunk (g : Passes) : Pass BoundBlock := do
  let body ← block g
  let t ← peek
  if t.kind = .eof then return body
  else failAt t.pos (.leftover t.lexeme)

/-- The program of some tokens, with calls nested up to `depth`. -/
def program (depth : Nat) (tokens : List Token) : Except Halt Program :=
  match chunk (level depth) tokens ⟨0, Scopes.empty⟩ with
  | (.ok body, c) => .ok ⟨body, c.scopes.locals⟩
  | (.error halt, _) => .error halt

/-- The program of a source text. -/
def parse (source : String) : Except Halt Program :=
  match tokenize source with
  | .ok tokens => program tokens.length tokens
  | .error e => .error (.refused e)

end ScriptCore.SinglePass
