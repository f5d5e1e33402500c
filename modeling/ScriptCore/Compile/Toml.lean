import ScriptCore.Numeral.Reading

set_option autoImplicit false

/-!
# Configuration documents

Reading of flat TOML documents: lines `key = value`, comments and section headers. Keys are bare
or quoted and may be dotted. Values are strings, integers, floats, booleans and arrays of values.
A key or a section that is given twice makes the whole document invalid.

## Main definitions

* `ScriptCore.Toml.Value` — the values.
* `ScriptCore.Toml.Document`, `ScriptCore.Toml.parse?` — the settings of a document by their path.
-/

namespace ScriptCore.Toml

/-- A value of a setting. -/
inductive Value
  | string (s : String)
  | integer (n : Int)
  | float
  | boolean (b : Bool)
  | array (items : List Value)

/-- A setting: the names of its section and its key, and its value. -/
abbrev Setting := List String × Value

/-- The tables and the settings of a document. -/
structure Document where
  /-- The tables opened by a header. -/
  sections : List (List String)
  /-- The tables opened by the dots of a key. -/
  dotted : List (List String)
  settings : List Setting

/-- No table and no setting. -/
def Document.empty : Document := ⟨[], [], []⟩

/-- The rest of a text behind what a reader has taken; `none` if the text is malformed. -/
abbrev Reader (α : Type) := List Char → Option (α × List Char)

/-! ## Blanks and lines -/

/-- The text behind spaces and tabs. -/
def skipBlanks (cs : List Char) : List Char :=
  cs.dropWhile fun c => c = ' ' || c = '\t'

/-- The text behind a line break, which is a line feed with or without a carriage return. -/
def lineBreak? : List Char → Option (List Char)
  | '\n' :: cs => some cs
  | '\r' :: '\n' :: cs => some cs
  | _ => none

/-- Whether a character may stand in a comment or a string: no control character but the tab. -/
def isPlain (c : Char) : Bool :=
  c = '\t' || (0x20 ≤ c.toNat && c.toNat ≠ 0x7f)

/-- The text behind a comment, if one starts here. -/
def skipComment : List Char → List Char
  | '#' :: cs => cs.dropWhile isPlain
  | cs => cs

/-- The text behind the end of a line: blanks, a comment, and a line break or the end of the
text. -/
def endLine? (cs : List Char) : Option (List Char) :=
  match skipComment (skipBlanks cs) with
  | [] => some []
  | cs => lineBreak? cs

/-- The text behind blanks, comments and line breaks, skipping at most `fuel` lines. -/
def skipLines : Nat → List Char → List Char
  | 0, cs => cs
  | fuel + 1, cs =>
    let cs := skipComment (skipBlanks cs)
    match lineBreak? cs with
    | some rest => skipLines fuel rest
    | none => cs

/-! ## Strings and keys -/

/-- The character of a number given by hexadecimal digits. -/
def unicode? (digits : List Char) : Option Char :=
  let n := Numeral.ofDigits 16 digits
  if digits.all Numeral.isHexadecimal ∧ n.isValidChar then some (Char.ofNat n) else none

/-- The character of an escape behind its backslash. -/
def escape? : Reader Char
  | 'b' :: cs => some ('\x08', cs)
  | 't' :: cs => some ('\t', cs)
  | 'n' :: cs => some ('\n', cs)
  | 'f' :: cs => some ('\x0c', cs)
  | 'r' :: cs => some ('\r', cs)
  | '"' :: cs => some ('"', cs)
  | '\\' :: cs => some ('\\', cs)
  | 'u' :: a :: b :: c :: d :: cs => (unicode? [a, b, c, d]).map (·, cs)
  | 'U' :: a :: b :: c :: d :: e :: f :: g :: h :: cs =>
    (unicode? [a, b, c, d, e, f, g, h]).map (·, cs)
  | _ => none

/-- A string with escapes, behind its opening quote; at most `fuel` characters are taken. -/
def basicString : Nat → Reader (List Char)
  | 0, _ => none
  | _ + 1, [] => none
  | _ + 1, '"' :: cs => some ([], cs)
  | fuel + 1, '\\' :: cs => do
    let (c, cs) ← escape? cs
    let (text, cs) ← basicString fuel cs
    return (c :: text, cs)
  | fuel + 1, c :: cs => do
    if isPlain c then
      let (text, cs) ← basicString fuel cs
      return (c :: text, cs)
    else none

/-- A string without escapes, behind its opening quote. -/
def literalString (cs : List Char) : Option (List Char × List Char) :=
  match cs.dropWhile fun c => c ≠ '\'' && isPlain c with
  | '\'' :: rest => some (cs.takeWhile fun c => c ≠ '\'' && isPlain c, rest)
  | _ => none

/-- A string of either form. -/
def string? : Reader String
  | '"' :: cs => (basicString (cs.length + 1) cs).map fun (text, rest) => (String.ofList text, rest)
  | '\'' :: cs => (literalString cs).map fun (text, rest) => (String.ofList text, rest)
  | _ => none

/-- The characters of bare keys. -/
def isBare (c : Char) : Bool := c.isAlphanum || c = '_' || c = '-'

/-- One name of a key. -/
def name? (cs : List Char) : Option (String × List Char) :=
  string? cs <|>
    (let name := cs.takeWhile isBare
     if name = [] then none else some (String.ofList name, cs.dropWhile isBare))

/-- The most names a key may have, and the most arrays that may be nested. -/
def maxDepth : Nat := 79

/-- At most `limit` names separated by dots. -/
def names? : Nat → Reader (List String)
  | 0, _ => none
  | limit + 1, cs => do
    let (name, rest) ← name? (skipBlanks cs)
    match skipBlanks rest with
    | '.' :: rest =>
      let (names, rest) ← names? limit rest
      return (name :: names, rest)
    | rest => return ([name], rest)

/-- A key: names separated by dots, not more than a key may have. -/
def key? : Reader (List String) := names? maxDepth

/-! ## Numbers -/

/-- Digits of the given class, in which single underscores may stand between two digits. -/
def grouped? (isDigit : Char → Bool) : List Char → Option (List Char)
  | [] => none
  | [c] => if isDigit c then some [c] else none
  | c :: '_' :: cs => if isDigit c then (grouped? isDigit cs).map (c :: ·) else none
  | c :: cs => if isDigit c then (grouped? isDigit cs).map (c :: ·) else none

/-- Whether the digits have no zero in front of others. -/
def noLeadingZero : List Char → Bool
  | '0' :: _ :: _ => false
  | _ => true

/-- An integer of 64 bits with its sign. -/
def bounded? (negative : Bool) (n : Nat) : Option Value :=
  let limit := if negative then 0x8000000000000000 else 0x7fffffffffffffff
  if n ≤ limit then some (.integer (if negative then -(n : Int) else n)) else none

/-- An integer with a sign and no zeros in front. -/
def decimalInteger? (cs : List Char) : Option Value := do
  let (negative, body) := Numeral.splitSign cs
  let ds ← grouped? Numeral.isDecimal body
  if noLeadingZero ds then bounded? negative (Numeral.ofDigits 10 ds) else none

/-- An integer in another base, marked by `0x`, `0o` or `0b`. -/
def markedInteger? : List Char → Option Value
  | '0' :: 'x' :: cs => do
    bounded? false (Numeral.ofDigits 16 (← grouped? Numeral.isHexadecimal cs))
  | '0' :: 'o' :: cs => do
    bounded? false (Numeral.ofDigits 8 (← grouped? (fun c => '0' ≤ c && c ≤ '7') cs))
  | '0' :: 'b' :: cs => do
    bounded? false (Numeral.ofDigits 2 (← grouped? (fun c => c = '0' || c = '1') cs))
  | _ => none

/-- Whether a text is the exponent of a float behind its letter. -/
def isExponent (cs : List Char) : Bool :=
  (grouped? Numeral.isDecimal (Numeral.splitSign cs).2).isSome

/-- Whether a text is the fraction of a float behind its point, with or without an exponent. -/
def isFraction (cs : List Char) : Bool :=
  let digits := cs.takeWhile fun c => c ≠ 'e' && c ≠ 'E'
  (grouped? Numeral.isDecimal digits).isSome &&
    match cs.drop digits.length with
    | [] => true
    | _ :: rest => isExponent rest

/-- Whether the digits of a float give a number that is not too large. -/
def isInRange (body : List Char) : Bool :=
  !(Numeral.decimal? (body.filter (· != '_'))).any Binary64.isInfinite

/-- A float: an integer part with a fraction, an exponent or both, or a named number. A positive one
with digits has to be finite. -/
def float? (cs : List Char) : Option Value :=
  let (negative, body) := Numeral.splitSign cs
  let whole := body.takeWhile fun c => Numeral.isDecimal c || c = '_'
  let wellFormed := match grouped? Numeral.isDecimal whole with
    | some ds => noLeadingZero ds
    | none => false
  let isFloat :=
    body = ['i', 'n', 'f'] || body = ['n', 'a', 'n'] ||
      (wellFormed && (negative || isInRange body) &&
        match body.drop whole.length with
        | '.' :: rest => isFraction rest
        | c :: rest => (c = 'e' || c = 'E') && isExponent rest
        | [] => false)
  if isFloat then some .float else none

/-- The boolean of a word. -/
def boolean? (cs : List Char) : Option Value :=
  if cs = ['t', 'r', 'u', 'e'] then some (.boolean true)
  else if cs = ['f', 'a', 'l', 's', 'e'] then some (.boolean false)
  else none

/-- The characters of numbers and booleans. -/
def isWordPart (c : Char) : Bool := isBare c || c = '+' || c = '.'

/-- A number or a boolean. -/
def word? (cs : List Char) : Option (Value × List Char) := do
  let word := cs.takeWhile isWordPart
  let value ← boolean? word <|> markedInteger? word <|> decimalInteger? word <|> float? word
  return (value, cs.dropWhile isWordPart)

/-! ## Values -/

/-- The items of an array behind its opening bracket. Items are separated by commas, the last one
may have a comma too, and lines may be broken between them. At most `fuel` items are read; `value`
reads one. -/
def items? (value : Reader Value) : Nat → Reader (List Value)
  | 0, _ => none
  | fuel + 1, cs =>
    match skipLines cs.length cs with
    | ']' :: rest => some ([], rest)
    | cs => do
      let (v, rest) ← value cs
      match skipLines rest.length rest with
      | ']' :: rest => return ([v], rest)
      | ',' :: rest =>
        let (vs, rest) ← items? value fuel rest
        return (v :: vs, rest)
      | _ => none

/-- A value in which at most `depth` arrays are nested. -/
def nested? : Nat → Reader Value
  | depth + 1, '[' :: cs =>
    (items? (nested? depth) (cs.length + 1) cs).map fun (vs, rest) => (.array vs, rest)
  | _, cs => ((string? cs).map fun (s, rest) => (Value.string s, rest)) <|> word? cs

/-- A value, in which no more arrays are nested than may be. -/
def value? : Reader Value := nested? maxDepth

/-! ## Documents -/

/-- What has been read of a document: the section that is open, and the tables and settings so
far. -/
structure State where
  current : List String
  document : Document

/-- The tables that the names of a key but the last one lead through, from the given table on. -/
def tablesOf (table : List String) : List String → List (List String)
  | [] => []
  | [_] => []
  | name :: names => (table ++ [name]) :: tablesOf (table ++ [name]) names

/-- Whether a header may open a table. It may not have been opened before, by a header or by the
dots of a key, and the path to it may not lead to or through a setting. -/
def Document.admitsSection (d : Document) (path : List String) : Bool :=
  !d.sections.contains path && !d.dotted.contains path &&
    !d.settings.any fun t => t.1.isPrefixOf path

/-- Whether a table holds sections, or is one. -/
def Document.holdsSection (d : Document) (table : List String) : Bool :=
  d.sections.any fun t => table.isPrefixOf t

/-- Whether a key may be set in a section. The path to it may not lead to a table, to a setting or
through one. The dots of the key may not lead through a section, and not into a table that was
made by the header of a section inside. -/
def Document.admitsSetting (d : Document) (current key : List String) : Bool :=
  let path := current ++ key
  let tables := tablesOf current key
  !d.holdsSection path && !tables.any d.sections.contains && !tables.getLast?.any d.holdsSection &&
    !d.settings.any fun t => t.1.isPrefixOf path || path.isPrefixOf t.1

/-- A header behind its opening bracket. -/
def header? (s : State) (cs : List Char) : Option (State × List Char) := do
  let (path, rest) ← key? cs
  match rest with
  | ']' :: rest =>
    let d := s.document
    if d.admitsSection path then
      return (⟨path, { d with sections := path :: d.sections }⟩, ← endLine? rest)
    else none
  | _ => none

/-- A setting in the section that is open. -/
def setting? (s : State) (cs : List Char) : Option (State × List Char) := do
  let (key, rest) ← key? cs
  match rest with
  | '=' :: rest =>
    let (value, rest) ← value? (skipBlanks rest)
    let d := s.document
    if d.admitsSetting s.current key then
      let document := { d with
        dotted := tablesOf s.current key ++ d.dotted
        settings := d.settings ++ [(s.current ++ key, value)] }
      return ({ s with document }, ← endLine? rest)
    else none
  | _ => none

/-- The lines of a document, at most `fuel` of them. -/
def lines? : Nat → State → List Char → Option Document
  | 0, s, cs => if cs = [] then some s.document else none
  | fuel + 1, s, cs =>
    match skipLines cs.length cs with
    | [] => some s.document
    | '[' :: rest => do
      let (s, rest) ← header? s rest
      lines? fuel s rest
    | cs => do
      let (s, rest) ← setting? s cs
      lines? fuel s rest

/-- The settings of a document, `none` if it is malformed. A byte order mark may stand in front. -/
def parse? (text : String) : Option Document :=
  let cs := text.toList
  let cs := if cs.head? = some '\ufeff' then cs.tail else cs
  lines? (cs.length + 1) ⟨[], .empty⟩ cs

end ScriptCore.Toml
