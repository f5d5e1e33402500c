import ScriptCore.Source.Token

set_option autoImplicit false

/-!
# Errors of the front end

The causes for which a source text is refused, each with the place it is reported at, and their
wording.

## Main definitions

* `ScriptCore.ParseError` — a cause and a place.
* `ScriptCore.ParseError.message` — the wording, with the place.
-/

namespace ScriptCore

/-- Why a source text is refused. -/
inductive ParseError.Cause
  /-- A long bracket has no closing bracket of its level. -/
  | openLongBracket
  /-- A quoted string ends with its line or with the text. -/
  | openString
  /-- A backslash stands before a character that has no escape. -/
  | badEscape (c : Char)
  /-- No token starts with this character. -/
  | badCharacter (c : Char)
  /-- A numeral is malformed. -/
  | badNumber (lexeme : String)
  /-- One kind of token is required and another token was found. -/
  | expected (wanted : Token.Kind) (found : Token)
  /-- The program is complete, but a token is left over. -/
  | leftover (lexeme : String)
  /-- No expression starts with this token. -/
  | badSymbol (lexeme : String)
  /-- The target of an assignment is not a variable. -/
  | notAssignable
  /-- An expression stands where a statement is required, and it is not a call. -/
  | notStatement
  /-- A number token has no value. -/
  | noValue
  /-- The nesting of the text is deeper than its length. -/
  | tooDeep
deriving DecidableEq, Repr

/-- The error of a refused source text. -/
structure ParseError where
  pos : Position
  cause : ParseError.Cause
deriving DecidableEq, Repr

namespace ParseError

/-- The first byte of the UTF-8 form of `c`, read as a character of its own. -/
def leadByte (c : Char) : Char :=
  Char.ofNat ((String.utf8EncodeChar c).headD 0).toNat

/-- What a required kind of token is called. -/
def Cause.describe (wanted : Token.Kind) : String :=
  if wanted = .ident then "identifier" else "`" ++ wanted.spelling ++ "`"

/-- The wording of a cause. Characters are reported by the first byte of their encoding. -/
def Cause.message : Cause → String
  | openLongBracket => "unterminated long bracket"
  | openString => "unterminated string"
  | badEscape c => "invalid escape sequence `\\" ++ (leadByte c).toString ++ "`"
  | badCharacter c => "unexpected character `" ++ (leadByte c).toString ++ "`"
  | badNumber lexeme => "malformed number `" ++ lexeme ++ "`"
  | expected wanted found =>
    let text := if found.kind = .eof then "<eof>" else found.lexeme
    "expected " ++ describe wanted ++ ", found `" ++ text ++ "`"
  | leftover lexeme => "unexpected `" ++ lexeme ++ "`"
  | badSymbol lexeme => "unexpected symbol `" ++ lexeme ++ "`"
  | notAssignable => "cannot assign to this expression"
  | notStatement => "syntax error: expression is not a statement"
  | noValue => "malformed number"
  | tooDeep => "nesting too deep"

/-- The wording of an error, with its place. -/
def message (e : ParseError) : String :=
  "parse error at line " ++ toString e.pos.line ++ ", col " ++ toString e.pos.column ++ ": " ++
    e.cause.message

end ParseError

end ScriptCore
