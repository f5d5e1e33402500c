import ScriptCore.Source.Lexer
import ScriptCore.Source.Tree

set_option autoImplicit false

/-!
# From tokens to trees

The grammar is written as rules over the parsers of smaller inputs. `Grammar` holds one parser for
each recursive part of the language, and `Grammar.rules` makes a grammar from another one. A rule
hands over to the grammar it is made from only behind a token it has taken, so the grammar that is
reached after as many steps as there are tokens parses the whole input.

## Main definitions

* `ScriptCore.Parser` — parsers over a list of tokens.
* `ScriptCore.Grammar`, `ScriptCore.Grammar.rules`, `ScriptCore.Grammar.level` — the grammar.
* `ScriptCore.BinaryOp.priority?` — the priorities of the binary operators.
* `ScriptCore.parseChunk` — the tree of a complete list of tokens.
-/

namespace ScriptCore

/-- A parser takes tokens from the front of a list. -/
abbrev Parser := StateT (List Token) (Except ParseError)

namespace Parser

/-- The token the parser stands at. Behind the last token this is an end of the input. -/
def peek : Parser Token := fun ts => .ok (ts.headD ⟨.eof, .start, ""⟩, ts)

/-- Takes the token the parser stands at. -/
def advance : Parser Token := fun ts => .ok (ts.headD ⟨.eof, .start, ""⟩, ts.tail)

/-- The kind of the token the parser stands at. -/
def kind : Parser Token.Kind := return (← peek).kind

/-- The place of the token the parser stands at. -/
def here : Parser Position := return (← peek).pos

/-- Whether the token behind the one the parser stands at is of kind `k`. -/
def nextIs (k : Token.Kind) : Parser Bool :=
  fun ts => .ok (ts.tail.head?.any (·.kind = k), ts)

/-- Refuses the input for the given cause at the given place. -/
def failAt {α : Type} (pos : Position) (cause : ParseError.Cause) : Parser α :=
  fun _ => .error ⟨pos, cause⟩

/-- Takes a token of kind `k` if the parser stands at one. -/
def eat (k : Token.Kind) : Parser Bool := do
  if (← kind) = k then
    let _ ← advance
    return true
  else return false

/-- Takes a token that must be of kind `k`. -/
def expect (k : Token.Kind) : Parser Token := do
  let t ← peek
  if t.kind = k then advance
  else failAt t.pos (.expected k t)

/-- Takes a name and gives it with its place. -/
def binder : Parser Binder := do
  let t ← expect .ident
  return ⟨t.lexeme, t.pos⟩

/-- Takes a name. -/
def ident : Parser String := return (← expect .ident).lexeme

end Parser

/-! ## Operators -/

/-- The unary operator a token stands for. -/
def UnaryOp.ofKind? : Token.Kind → Option UnaryOp
  | .minus => some .neg
  | .kwNot => some .not
  | .hash => some .len
  | _ => none

/-- The priority of the operand of a unary operator. -/
def UnaryOp.priority : Nat := 8

namespace BinaryOp

/-- The priorities of an operator to its left and to its right. An operator with the lower
priority on its right associates to the right. -/
def priority : BinaryOp → Nat × Nat
  | or => (1, 1)
  | and => (2, 2)
  | eq | ne | lt | le | gt | ge => (3, 3)
  | concat => (5, 4)
  | add | sub => (6, 6)
  | mul | div | idiv | mod => (7, 7)
  | pow => (10, 9)

/-- The binary operator a token stands for. -/
def ofKind? : Token.Kind → Option BinaryOp
  | .kwOr => some or
  | .kwAnd => some and
  | .eqEq => some eq
  | .neq => some ne
  | .lt => some lt
  | .le => some le
  | .gt => some gt
  | .ge => some ge
  | .dotDot => some concat
  | .plus => some add
  | .minus => some sub
  | .star => some mul
  | .slash => some div
  | .slashSlash => some idiv
  | .percent => some mod
  | .caret => some pow
  | _ => none

/-- The operator of a compound assignment. -/
def ofAssignment? : Token.Kind → Option BinaryOp
  | .plusAssign => some add
  | .minusAssign => some sub
  | .starAssign => some mul
  | .slashAssign => some div
  | .slashSlashAssign => some idiv
  | .percentAssign => some mod
  | .caretAssign => some pow
  | .dotDotAssign => some concat
  | _ => none

end BinaryOp

/-! ## The grammar -/

/-- Function literals as parsed. -/
abbrev RawFunction := Function String Binder

/-- One parser for each recursive part of the language. -/
structure Grammar where
  /-- Statements up to the end of their block. -/
  stmts : Parser (List RawStmt)
  /-- The rest of a conditional behind one of its blocks. -/
  alternative : Parser (Alternative String Binder)
  /-- An expression of operators that bind more tightly than the limit. -/
  expr : (limit : Nat) → Parser RawExpr
  /-- The operators behind a left operand that bind more tightly than the limit. -/
  operators : (limit : Nat) → RawExpr → Parser RawExpr
  /-- The elements and calls behind an expression. -/
  suffixes : RawExpr → Parser RawExpr
  /-- Expressions separated by commas. -/
  exprs : Parser (List RawExpr)
  /-- The expressions behind the first of a list, each after a comma. -/
  moreExprs : Parser (List RawExpr)
  /-- The targets behind the first of an assignment, each after a comma. -/
  moreTargets : Parser (List RawExpr)
  /-- The names behind the first of a list, each after a comma. -/
  moreNames : Parser (List Binder)
  /-- The members behind the first name of a function statement, and whether the last is a
  method; the expression is the target so far, the place that of the statement. -/
  path : Position → RawExpr → Parser (RawExpr × Bool)
  /-- Parameters, and whether the list ends with the extra arguments. -/
  params : Parser (List Binder × Bool)
  /-- The items of a table constructor up to its closing brace. -/
  items : Parser (List (Item String Binder))

namespace Grammar

open ScriptCore.Parser

/-- Whether a token of this kind ends a block. -/
def endsBlock : Token.Kind → Bool
  | .eof | .kwEnd | .kwElse | .kwElseIf | .kwUntil => true
  | _ => false

/-! ### Expressions -/

/-- A name, or an expression in parentheses. -/
def primary (g : Grammar) : Parser RawExpr := do
  let t ← peek
  match t.kind with
  | .ident =>
    let _ ← advance
    return .name t.lexeme t.pos
  | .lParen =>
    let _ ← advance
    let inner ← g.expr 0
    let _ ← expect .rParen
    return .group inner t.pos
  | _ => failAt t.pos (.badSymbol t.lexeme)

/-- A table constructor. -/
def table (g : Grammar) : Parser RawExpr := do
  let brace ← expect .lBrace
  let items ← g.items
  let _ ← expect .rBrace
  return .table items brace.pos

/-- The arguments of a call: a string, a table, or a list in parentheses. -/
def args (g : Grammar) : Parser (List RawExpr) := do
  let t ← peek
  match t.kind with
  | .string =>
    let _ ← advance
    return [.string t.lexeme t.pos]
  | .lBrace => return [← table g]
  | _ =>
    let _ ← expect .lParen
    if ← eat .rParen then return []
    let es ← g.exprs
    let _ ← expect .rParen
    return es

/-- The elements and calls behind an expression. -/
def suffixesRule (g : Grammar) (e : RawExpr) : Parser RawExpr := do
  let t ← peek
  match t.kind with
  | .dot =>
    let _ ← advance
    let member ← ident
    g.suffixes (.member e member t.pos)
  | .lBracket =>
    let _ ← advance
    let key ← g.expr 0
    let _ ← expect .rBracket
    g.suffixes (.index e key t.pos)
  | .colon =>
    let _ ← advance
    let member ← ident
    let es ← args g
    g.suffixes (.call (.member e member t.pos) es true t.pos)
  | .lParen | .string | .lBrace =>
    let es ← args g
    g.suffixes (.call e es false t.pos)
  | _ => return e

/-- A primary expression with the elements and calls behind it. -/
def suffixed (g : Grammar) : Parser RawExpr := do
  suffixesRule g (← primary g)

/-- The statements of a block with the place of its first token. -/
def block (g : Grammar) : Parser RawBlock := do
  let pos ← here
  return .mk pos (← g.stmts)

/-- Parameters up to the closing parenthesis. -/
def paramsRule (g : Grammar) : Parser (List Binder × Bool) := do
  if ← eat .ellipsis then return ([], true)
  let b ← binder
  if ← eat .comma then
    let (bs, variadic) ← g.params
    return (b :: bs, variadic)
  return ([b], false)

/-- The parameters and the body of a function at `pos`, with the given parameters in front. -/
def function (g : Grammar) (pos : Position) (receiver : List Binder) : Parser RawFunction := do
  let _ ← expect .lParen
  let (params, variadic) ← if (← kind) = .rParen then pure ([], false) else paramsRule g
  let _ ← expect .rParen
  let body ← block g
  let _ ← expect .kwEnd
  return .mk (receiver ++ params) variadic body pos

/-- An expression without operators. -/
def simple (g : Grammar) : Parser RawExpr := do
  let t ← peek
  match t.kind with
  | .number =>
    let _ ← advance
    match Numeral.literal? t.lexeme with
    | some value => return .number value t.pos
    | none => failAt t.pos .noValue
  | .string =>
    let _ ← advance
    return .string t.lexeme t.pos
  | .kwNil =>
    let _ ← advance
    return .nil t.pos
  | .kwTrue =>
    let _ ← advance
    return .bool true t.pos
  | .kwFalse =>
    let _ ← advance
    return .bool false t.pos
  | .ellipsis =>
    let _ ← advance
    return .varargs t.pos
  | .lBrace => table g
  | .kwFunction =>
    let _ ← advance
    return .function (← function g t.pos [])
  | _ => suffixed g

/-- The operators behind a left operand that bind more tightly than `limit`. -/
def operatorsRule (g : Grammar) (limit : Nat) (left : RawExpr) : Parser RawExpr := do
  let t ← peek
  match BinaryOp.ofKind? t.kind with
  | some op =>
    if limit < op.priority.1 then
      let _ ← advance
      let right ← g.expr op.priority.2
      g.operators limit (.binary op left right t.pos)
    else return left
  | none => return left

/-- An expression of operators that bind more tightly than `limit`. -/
def exprRule (g : Grammar) (limit : Nat) : Parser RawExpr := do
  let t ← peek
  let left ← match UnaryOp.ofKind? t.kind with
    | some op => do
      let _ ← advance
      let operand ← g.expr UnaryOp.priority
      pure (.unary op operand t.pos)
    | none => simple g
  operatorsRule g limit left

/-- The expressions behind the first of a list. -/
def moreExprsRule (g : Grammar) : Parser (List RawExpr) := do
  if ← eat .comma then
    let e ← g.expr 0
    return e :: (← g.moreExprs)
  return []

/-- Expressions separated by commas. -/
def exprsRule (g : Grammar) : Parser (List RawExpr) := do
  let e ← exprRule g 0
  return e :: (← moreExprsRule g)

/-- An item of a table constructor. -/
def item (g : Grammar) : Parser (Item String Binder) := do
  let t ← peek
  if t.kind = .lBracket then
    let _ ← advance
    let key ← g.expr 0
    let _ ← expect .rBracket
    let _ ← expect .assign
    return .keyed key (← g.expr 0)
  else if t.kind = .ident ∧ (← nextIs .assign) then
    let _ ← advance
    let _ ← advance
    return .named t.lexeme (← g.expr 0)
  else return .positional (← exprRule g 0)

/-- The items of a table constructor up to its closing brace. A comma or a semicolon stands
between items and may follow the last one. -/
def itemsRule (g : Grammar) : Parser (List (Item String Binder)) := do
  if (← kind) = .rBrace then return []
  let i ← item g
  if ← eat .comma then return i :: (← g.items)
  if ← eat .semicolon then return i :: (← g.items)
  return [i]

/-! ### Statements -/

/-- The names behind the first of a list. -/
def moreNamesRule (g : Grammar) : Parser (List Binder) := do
  if ← eat .comma then
    let b ← binder
    return b :: (← g.moreNames)
  return []

/-- Local variables behind `local`. -/
def localVars (g : Grammar) (pos : Position) : Parser RawStmt := do
  let b ← binder
  let bs ← moreNamesRule g
  let values ← if ← eat .assign then exprsRule g else pure []
  return .localVars (b :: bs) values pos

/-- A local function behind `local function`. -/
def localFunction (g : Grammar) (pos : Position) : Parser RawStmt := do
  let b ← binder
  return .localFunction b (← function g pos []) pos

/-- The members behind the first name of a function statement at `pos`. -/
def pathRule (g : Grammar) (pos : Position) (target : RawExpr) : Parser (RawExpr × Bool) := do
  if ← eat .dot then
    let member ← ident
    g.path pos (.member target member pos)
  else if ← eat .colon then
    let member ← ident
    return (.member target member pos, true)
  else return (target, false)

/-- A function statement behind its keyword. A method gets a parameter `self` in front. -/
def functionDecl (g : Grammar) (pos : Position) : Parser RawStmt := do
  let b ← binder
  let (target, isMethod) ← pathRule g pos (.name b.name b.pos)
  let f ← function g pos (if isMethod then [⟨"self", pos⟩] else [])
  return .functionDecl target f pos

/-- The rest of a conditional behind one of its blocks. -/
def alternativeRule (g : Grammar) : Parser (Alternative String Binder) := do
  if ← eat .kwElseIf then
    let condition ← g.expr 0
    let _ ← expect .kwThen
    let body ← block g
    return .elseIf condition body (← g.alternative)
  else if ← eat .kwElse then return .otherwise (← block g)
  else return .none

/-- A conditional behind `if`. -/
def conditional (g : Grammar) (pos : Position) : Parser RawStmt := do
  let condition ← g.expr 0
  let _ ← expect .kwThen
  let body ← block g
  let rest ← alternativeRule g
  let _ ← expect .kwEnd
  return .conditional condition body rest pos

/-- A loop behind `for`. -/
def forLoop (g : Grammar) (pos : Position) : Parser RawStmt := do
  let b ← binder
  if ← eat .assign then
    let start ← g.expr 0
    let _ ← expect .comma
    let limit ← g.expr 0
    let step ← if ← eat .comma then pure (some (← g.expr 0)) else pure none
    let _ ← expect .kwDo
    let body ← block g
    let _ ← expect .kwEnd
    return .numericFor b start limit step body pos
  else
    let bs ← moreNamesRule g
    let _ ← expect .kwIn
    let values ← g.exprs
    let _ ← expect .kwDo
    let body ← block g
    let _ ← expect .kwEnd
    return .genericFor (b :: bs) values body pos

/-- Refuses a target that cannot be assigned to. -/
def checkAssignable (e : RawExpr) : Parser Unit :=
  if e.isAssignable then pure () else failAt e.pos .notAssignable

/-- The targets behind the first of an assignment. -/
def moreTargetsRule (g : Grammar) : Parser (List RawExpr) := do
  if ← eat .comma then
    let e ← suffixed g
    return e :: (← g.moreTargets)
  return []

/-- An assignment or a call at `pos`. -/
def exprStmt (g : Grammar) (pos : Position) : Parser RawStmt := do
  let first ← suffixed g
  let t ← peek
  match BinaryOp.ofAssignment? t.kind with
  | some op =>
    let _ ← advance
    checkAssignable first
    return .compound op first (← g.expr 0) pos
  | none =>
    if t.kind = .assign ∨ t.kind = .comma then
      let targets := first :: (← moreTargetsRule g)
      let _ ← expect .assign
      targets.forM checkAssignable
      return .assign targets (← g.exprs) pos
    else if first.isCall then return .expr first
    else failAt pos .notStatement

/-- A statement. -/
def stmt (g : Grammar) : Parser RawStmt := do
  let t ← peek
  match t.kind with
  | .kwLocal =>
    let _ ← advance
    if ← eat .kwFunction then localFunction g t.pos else localVars g t.pos
  | .kwFunction =>
    let _ ← advance
    functionDecl g t.pos
  | .kwDo =>
    let _ ← advance
    let body ← block g
    let _ ← expect .kwEnd
    return .block body
  | .kwIf =>
    let _ ← advance
    conditional g t.pos
  | .kwWhile =>
    let _ ← advance
    let condition ← g.expr 0
    let _ ← expect .kwDo
    let body ← block g
    let _ ← expect .kwEnd
    return .whileLoop condition body t.pos
  | .kwRepeat =>
    let _ ← advance
    let body ← block g
    let _ ← expect .kwUntil
    return .repeatLoop body (← g.expr 0) t.pos
  | .kwFor =>
    let _ ← advance
    forLoop g t.pos
  | .kwReturn =>
    let _ ← advance
    let k ← kind
    if endsBlock k ∨ k = .semicolon then return .ret [] t.pos
    return .ret (← g.exprs) t.pos
  | .kwBreak =>
    let _ ← advance
    return .leave t.pos
  | _ => exprStmt g t.pos

/-- Statements up to the end of their block. A semicolon may follow each one; a return or a break
ends the block. -/
def stmtsRule (g : Grammar) : Parser (List RawStmt) := do
  let k ← kind
  if endsBlock k then return []
  let s ← stmt g
  let _ ← eat .semicolon
  if k = .kwReturn ∨ k = .kwBreak then return [s]
  return s :: (← g.stmts)

/-! ### Levels -/

/-- The grammar whose parts are made from the parsers of `g`. -/
def rules (g : Grammar) : Grammar where
  stmts := stmtsRule g
  alternative := alternativeRule g
  expr := exprRule g
  operators := operatorsRule g
  suffixes := suffixesRule g
  exprs := exprsRule g
  moreExprs := moreExprsRule g
  moreTargets := moreTargetsRule g
  moreNames := moreNamesRule g
  path := pathRule g
  params := paramsRule g
  items := itemsRule g

/-- Refuses every input. -/
def tooDeep {α : Type} : Parser α := do failAt (← here) .tooDeep

/-- The grammar that parses nothing. -/
def bottom : Grammar where
  stmts := tooDeep
  alternative := tooDeep
  expr _ := tooDeep
  operators _ _ := tooDeep
  suffixes _ := tooDeep
  exprs := tooDeep
  moreExprs := tooDeep
  moreTargets := tooDeep
  moreNames := tooDeep
  path _ _ := tooDeep
  params := tooDeep
  items := tooDeep

/-- The grammar after `n` steps; it parses inputs of up to `n` tokens. -/
def level (n : Nat) : Grammar :=
  Nat.repeat rules n bottom

end Grammar

open ScriptCore.Parser in
/-- A whole program: its statements, and nothing behind them. -/
def chunk (g : Grammar) : Parser RawBlock := do
  let body ← g.block
  let t ← peek
  if t.kind = .eof then return body
  else failAt t.pos (.leftover t.lexeme)

/-- The tree of a complete list of tokens. -/
def parseChunk (tokens : List Token) : Except ParseError RawBlock :=
  (chunk (Grammar.level tokens.length) tokens).map Prod.fst

end ScriptCore
