set_option autoImplicit false

/-!
# Places in a source text

A place is a line and a column, both counted from one. Columns count the bytes of the UTF-8
encoding, so a character outside ASCII moves the column by more than one.

## Main definitions

* `ScriptCore.Position` — a place in a text.
* `ScriptCore.Position.after`, `ScriptCore.Position.advance` — the place behind a character and
  behind a run of characters.
* `ScriptCore.Position.nextByte` — the place one byte further on the same line.
-/

namespace ScriptCore

/-- A place in a source text: line and column, both from one, the column in UTF-8 bytes. -/
structure Position where
  line : Nat
  column : Nat
deriving DecidableEq, Repr

namespace Position

/-- The first place of every text. -/
def start : Position := ⟨1, 1⟩

instance : Inhabited Position := ⟨start⟩

/-- The place behind the character `c` standing at `p`: a line feed starts a new line, any other
character moves the column by its length in bytes. -/
def after (p : Position) (c : Char) : Position :=
  if c = '\n' then ⟨p.line + 1, 1⟩ else ⟨p.line, p.column + c.utf8Size⟩

/-- The place behind the characters `cs` standing at `p`. -/
def advance (p : Position) (cs : List Char) : Position :=
  cs.foldl after p

/-- The place one byte further on the same line. -/
def nextByte (p : Position) : Position :=
  ⟨p.line, p.column + 1⟩

@[simp]
theorem advance_nil (p : Position) : p.advance [] = p := rfl

@[simp]
theorem advance_cons (p : Position) (c : Char) (cs : List Char) :
    p.advance (c :: cs) = (p.after c).advance cs := rfl

theorem advance_append (p : Position) (cs ds : List Char) :
    p.advance (cs ++ ds) = (p.advance cs).advance ds :=
  List.foldl_append

/-- The text form `line:column`. -/
def text (p : Position) : String :=
  toString p.line ++ ":" ++ toString p.column

end Position

end ScriptCore
