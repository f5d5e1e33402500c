import ScriptCore.Source.Position

set_option autoImplicit false

/-!
# Tokens

The words of a source text: names, keywords, literals and symbols, each with the place of its
first byte. The table of keywords and the table of symbols give the fixed spellings.

## Main definitions

* `ScriptCore.Token.Kind`, `ScriptCore.Token` — kinds of tokens, and tokens.
* `ScriptCore.Token.Kind.keywords`, `ScriptCore.Token.Kind.symbols` — the fixed spellings.
-/

namespace ScriptCore

/-- The kinds of tokens. -/
inductive Token.Kind
  | ident
  | number
  | string
  | eof
  -- keywords
  | kwAnd | kwBreak | kwDo | kwElse | kwElseIf | kwEnd | kwFalse | kwFor | kwFunction | kwIf | kwIn
  | kwLocal | kwNil | kwNot | kwOr | kwRepeat | kwReturn | kwThen | kwTrue | kwUntil | kwWhile
  -- operators
  | plus | minus | star | slash | slashSlash | percent | caret | hash | dotDot | ellipsis
  | eqEq | neq | lt | le | gt | ge
  -- assignments
  | assign | plusAssign | minusAssign | starAssign | slashAssign | slashSlashAssign
  | percentAssign | caretAssign | dotDotAssign
  -- punctuation
  | dot | comma | colon | semicolon | lParen | rParen | lBracket | rBracket | lBrace | rBrace
deriving DecidableEq, Repr

/-- A token: its kind, the place of its first byte, and its text. The text of a string token is
the string it denotes; that of the end of the input is empty. -/
structure Token where
  kind : Token.Kind
  pos : Position
  lexeme : String
deriving DecidableEq, Repr

namespace Token.Kind

/-- The reserved words. -/
def keywords : List (String × Kind) :=
  [("and", kwAnd), ("break", kwBreak), ("do", kwDo), ("else", kwElse), ("elseif", kwElseIf),
   ("end", kwEnd), ("false", kwFalse), ("for", kwFor), ("function", kwFunction), ("if", kwIf),
   ("in", kwIn), ("local", kwLocal), ("nil", kwNil), ("not", kwNot), ("or", kwOr),
   ("repeat", kwRepeat), ("return", kwReturn), ("then", kwThen), ("true", kwTrue),
   ("until", kwUntil), ("while", kwWhile)]

/-- The kind of a word: its keyword, or a name. -/
def ofWord (word : String) : Kind :=
  (keywords.lookup word).getD ident

/-- The symbols, longer spellings first, so that the first spelling a text starts with is the
longest one. -/
def symbols : List (List Char × Kind) :=
  [(['.', '.', '.'], ellipsis), (['.', '.', '='], dotDotAssign), (['/', '/', '='], slashSlashAssign),
   (['.', '.'], dotDot), (['/', '/'], slashSlash), (['=', '='], eqEq), (['~', '='], neq),
   (['<', '='], le), (['>', '='], ge), (['+', '='], plusAssign), (['-', '='], minusAssign),
   (['*', '='], starAssign), (['/', '='], slashAssign), (['%', '='], percentAssign),
   (['^', '='], caretAssign),
   (['+'], plus), (['-'], minus), (['*'], star), (['/'], slash), (['%'], percent), (['^'], caret),
   (['#'], hash), (['<'], lt), (['>'], gt), (['='], assign), (['.'], dot), (['('], lParen),
   ([')'], rParen), (['['], lBracket), ([']'], rBracket), (['\x7b'], lBrace), (['\x7d'], rBrace),
   ([','], comma), ([':'], colon), ([';'], semicolon)]

/-- The spelling and kind of the longest symbol at the head of `cs`. -/
def symbol? (cs : List Char) : Option (List Char × Kind) :=
  symbols.find? fun (spelling, _) => spelling.isPrefixOf cs

/-- The fixed spelling of a keyword or symbol; empty for the other kinds. -/
def spelling (k : Kind) : String :=
  match keywords.find? (·.2 = k) with
  | some (word, _) => word
  | none => ((symbols.find? (·.2 = k)).map fun s => String.ofList s.1).getD ""

/-- The name of a kind in token listings. -/
def name : Kind → String
  | ident => "Ident"
  | number => "Number"
  | string => "StringLit"
  | eof => "Eof"
  | kwAnd => "And"
  | kwBreak => "Break"
  | kwDo => "Do"
  | kwElse => "Else"
  | kwElseIf => "ElseIf"
  | kwEnd => "End"
  | kwFalse => "False"
  | kwFor => "For"
  | kwFunction => "Function"
  | kwIf => "If"
  | kwIn => "In"
  | kwLocal => "Local"
  | kwNil => "Nil"
  | kwNot => "Not"
  | kwOr => "Or"
  | kwRepeat => "Repeat"
  | kwReturn => "Return"
  | kwThen => "Then"
  | kwTrue => "True"
  | kwUntil => "Until"
  | kwWhile => "While"
  | plus => "Plus"
  | minus => "Minus"
  | star => "Star"
  | slash => "Slash"
  | slashSlash => "SlashSlash"
  | percent => "Percent"
  | caret => "Caret"
  | hash => "Hash"
  | dotDot => "DotDot"
  | ellipsis => "Ellipsis"
  | eqEq => "EqEq"
  | neq => "Neq"
  | lt => "Lt"
  | le => "Le"
  | gt => "Gt"
  | ge => "Ge"
  | assign => "Assign"
  | plusAssign => "PlusAssign"
  | minusAssign => "MinusAssign"
  | starAssign => "StarAssign"
  | slashAssign => "SlashAssign"
  | slashSlashAssign => "SlashSlashAssign"
  | percentAssign => "PercentAssign"
  | caretAssign => "CaretAssign"
  | dotDotAssign => "DotDotAssign"
  | dot => "Dot"
  | comma => "Comma"
  | colon => "Colon"
  | semicolon => "Semicolon"
  | lParen => "LParen"
  | rParen => "RParen"
  | lBracket => "LBracket"
  | rBracket => "RBracket"
  | lBrace => "LBrace"
  | rBrace => "RBrace"

end Token.Kind

end ScriptCore
