import ScriptCore.Source.ParseError
import ScriptCore.Numeral.Reading

set_option autoImplicit false

/-!
# From text to tokens

A text is cut into pieces from left to right. A piece is a blank character, a comment, or the
longest token that starts at its place. Every piece has at least one character, so the text that
is left gets shorter, and the places of the tokens are computed from the characters passed.

## Main definitions

* `ScriptCore.Lexer.Piece`, `ScriptCore.Lexer.scan` — the piece at the head of a text.
* `ScriptCore.Lexer.tokensFrom`, `ScriptCore.tokenize` — the tokens of a text.
-/

namespace ScriptCore.Lexer

/-! ## Classes of characters -/

/-- The blank characters between tokens. -/
def isBlank (c : Char) : Bool := c = ' ' || c = '\t' || c = '\r' || c = '\n'

/-- The characters a name can start with: ASCII letters and the underscore. -/
def isNameStart (c : Char) : Bool := c.isAlpha || c = '_'

/-- The characters of a name behind its first one. -/
def isNamePart (c : Char) : Bool := c.isAlphanum || c = '_'

/-- The characters of a hexadecimal numeral behind its mark. -/
def isHexPart (c : Char) : Bool := Numeral.isHexadecimal c || c = '_'

/-- The characters of a decimal numeral before its exponent. -/
def isDecimalPart (c : Char) : Bool := Numeral.isDecimal c || c = '_' || c = '.'

/-! ## Long brackets -/

/-- The level of the long bracket that opens at the head of `cs`, and the text behind it. -/
def longBracket? : List Char → Option (Nat × List Char)
  | '[' :: cs =>
    match cs.dropWhile (· = '=') with
    | '[' :: body => some ((cs.takeWhile (· = '=')).length, body)
    | _ => none
  | _ => none

/-- The closing long bracket of a level. -/
def longCloser (level : Nat) : List Char :=
  ']' :: (List.replicate level '=' ++ [']'])

/-- The text before the first closing long bracket of the given level. -/
def longText? (level : Nat) : List Char → Option (List Char)
  | [] => none
  | c :: cs =>
    if (longCloser level).isPrefixOf (c :: cs) then some []
    else (longText? level cs).map (c :: ·)

/-- The number of characters of a long bracket with its text. -/
def longWidth (level : Nat) (text : List Char) : Nat :=
  text.length + 2 * (level + 2)

/-! ## Numerals -/

/-- The exponent of a decimal numeral behind its letter: a sign, if there is one, and digits. -/
def exponentText : List Char → List Char
  | [] => []
  | c :: cs =>
    if c = '+' ∨ c = '-' then c :: cs.takeWhile Numeral.isDecimal
    else (c :: cs).takeWhile Numeral.isDecimal

/-- The decimal numeral at the head of `cs`. -/
def decimalText (cs : List Char) : List Char :=
  let body := cs.takeWhile isDecimalPart
  match cs.dropWhile isDecimalPart with
  | c :: rest => if c = 'e' ∨ c = 'E' then body ++ c :: exponentText rest else body
  | [] => body

/-- The numeral at the head of `cs`, well formed or not. -/
def numeralText : List Char → List Char
  | '0' :: 'x' :: cs => '0' :: 'x' :: cs.takeWhile isHexPart
  | '0' :: 'X' :: cs => '0' :: 'X' :: cs.takeWhile isHexPart
  | cs => decimalText cs

/-- Whether a numeral starts with `c` before `cs`. -/
def startsNumeral (c : Char) (cs : List Char) : Bool :=
  Numeral.isDecimal c || (c = '.' && (cs.head?.map Numeral.isDecimal).getD false)

/-! ## Quoted strings -/

/-- The character an escape stands for. -/
def escape? (c : Char) : Option Char :=
  if c = 'n' then some '\n'
  else if c = 't' then some '\t'
  else if c = 'r' then some '\r'
  else if c = '0' then some '\x00'
  else if c = '\\' ∨ c = '"' ∨ c = '\'' ∨ c = '\n' then some c
  else none

/-- A quoted string behind its opening quote. -/
inductive Quoted
  /-- The string ends: the characters it denotes, and the number of characters it is written with,
  the closing quote included. -/
  | closed (text : List Char) (width : Nat)
  /-- The line or the text ends first. -/
  | unclosed
  /-- A backslash, behind `before` characters, stands before a character without an escape. -/
  | badEscape (before : Nat) (c : Char)

/-- The string with one more character in front, written with `width` characters. -/
def Quoted.prepend (c : Char) (width : Nat) : Quoted → Quoted
  | closed text n => closed (c :: text) (n + width)
  | unclosed => unclosed
  | badEscape before d => badEscape (before + width) d

/-- The quoted string that starts with `cs`, behind its opening quote. -/
def quoted (quote : Char) : List Char → Quoted
  | [] => .unclosed
  | '\n' :: _ => .unclosed
  | ['\\'] => .unclosed
  | '\\' :: c :: cs =>
    match escape? c with
    | some d => (quoted quote cs).prepend d 2
    | none => .badEscape 0 c
  | c :: cs => if c = quote then .closed [] 1 else (quoted quote cs).prepend c 1

/-! ## Pieces -/

/-- What stands at the head of a text. The number in a piece counts its characters behind the
first one. -/
inductive Piece
  /-- A blank character or a comment. -/
  | blank (more : Nat)
  /-- A token. -/
  | token (kind : Token.Kind) (lexeme : String) (more : Nat)
  /-- No piece of the language starts here. -/
  | fault (error : ParseError)

/-- The comment whose text behind the two dashes starts with `cs`; it stands at `p`. -/
def comment (p : Position) (cs : List Char) : Piece :=
  match longBracket? cs with
  | some (level, body) =>
    match longText? level body with
    | some text => .blank (longWidth level text + 1)
    | none => .fault ⟨p, .openLongBracket⟩
  | none => .blank ((cs.takeWhile (· ≠ '\n')).length + 1)

/-- The quoted string with the opening quote `quote` at `p`, before `cs`. -/
def stringToken (p : Position) (quote : Char) (cs : List Char) : Piece :=
  match quoted quote cs with
  | .closed text width => .token .string (String.ofList text) width
  | .unclosed => .fault ⟨p, .openString⟩
  | .badEscape before c =>
    -- the place is that behind the backslash and the first byte of the character
    let passed := quote :: cs.take (before + 1)
    .fault ⟨(p.advance passed).nextByte, .badEscape c⟩

/-- The numeral at the head of `cs`, standing at `p`. -/
def numberToken (p : Position) (cs : List Char) : Piece :=
  let text := numeralText cs
  let lexeme := String.ofList text
  match Numeral.literal? lexeme with
  | some _ => .token .number lexeme (text.length - 1)
  | none => .fault ⟨p, .badNumber lexeme⟩

/-- The symbol at the head of `c :: cs`, standing at `p`. -/
def symbolToken (p : Position) (c : Char) (cs : List Char) : Piece :=
  match Token.Kind.symbol? (c :: cs) with
  | some (spelling, kind) => .token kind (String.ofList spelling) (spelling.length - 1)
  | none => .fault ⟨p, .badCharacter c⟩

/-- The piece at the head of `c :: cs`, standing at `p`. -/
def scan (p : Position) (c : Char) (cs : List Char) : Piece :=
  if isBlank c then .blank 0
  else if c = '-' ∧ cs.head? = some '-' then comment p (cs.drop 1)
  else if isNameStart c then
    let word := c :: cs.takeWhile isNamePart
    let lexeme := String.ofList word
    .token (Token.Kind.ofWord lexeme) lexeme (word.length - 1)
  else if startsNumeral c cs then numberToken p (c :: cs)
  else if c = '"' ∨ c = '\'' then stringToken p c cs
  else
    match longBracket? (c :: cs) with
    | some (level, body) =>
      match longText? level body with
      | some text => .token .string (String.ofList text) (longWidth level text - 1)
      | none => .fault ⟨p, .openLongBracket⟩
    | none => symbolToken p c cs

/-- The tokens of the text `cs` standing at `p`, closed by the end of the input. -/
def tokensFrom (p : Position) : List Char → Except ParseError (List Token)
  | [] => .ok [⟨.eof, p, ""⟩]
  | c :: cs =>
    match scan p c cs with
    | .blank more => tokensFrom (p.advance (c :: cs.take more)) (cs.drop more)
    | .token kind lexeme more =>
      (tokensFrom (p.advance (c :: cs.take more)) (cs.drop more)).map (⟨kind, p, lexeme⟩ :: ·)
    | .fault error => .error error
termination_by cs => cs.length
decreasing_by all_goals (simp only [List.length_drop, List.length_cons]; omega)

end ScriptCore.Lexer

namespace ScriptCore

/-- The tokens of a source text. The last one, and only that, is the end of the input. -/
def tokenize (source : String) : Except ParseError (List Token) :=
  Lexer.tokensFrom Position.start source.toList

end ScriptCore
