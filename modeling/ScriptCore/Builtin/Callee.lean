import ScriptCore.Analysis.Variables
import ScriptCore.Builtin.FastFunction
import ScriptCore.Compile.Options

set_option autoImplicit false

/-!
# The library function a callee denotes

An expression denotes a function of a library if it leads, through parentheses and local variables
that keep their first value, to a global nothing replaces, or to one member of such a global.

## Main definitions

* `ScriptCore.Builtin` — a global, or a member of a global, by name.
* `ScriptCore.Facts`, `ScriptCore.Facts.resolve` — the name an expression denotes.
* `ScriptCore.Builtin.function?` — the function with a fast path a name stands for.
-/

namespace ScriptCore

/-- A global, or a member of a global library. The default, with an empty name, denotes nothing. -/
structure Builtin where
  object : Option String := none
  method : String := ""
deriving DecidableEq, Repr

namespace Builtin

/-- The descriptor that denotes nothing. -/
def empty : Builtin := {}

/-- Whether the descriptor denotes nothing. -/
def isEmpty (b : Builtin) : Bool := b.method = ""

/-- The descriptor of a member of what `b` denotes, if that is a global. -/
def member (b : Builtin) (name : String) : Builtin :=
  if b.object = none ∧ !b.isEmpty then ⟨some b.method, name⟩ else empty

end Builtin

/-- What an analysis of a program knows about its names. -/
structure Facts where
  globals : Globals
  locals : Variables
  /-- The number of local declarations of the program. -/
  declarations : Nat

namespace Facts

/-- The facts of a program, when the host may replace the given globals. -/
def ofProgram (replaceable : List String) (p : Program) : Facts where
  globals := (Globals.withReplaceable replaceable).track p
  locals := p.localVariables
  declarations := p.locals.size

/-- The name an expression denotes, when `ofLocal` gives it for local variables. -/
def resolveWith (facts : Facts) (ofLocal : LocalId → Builtin) : BoundExpr → Builtin
  | .name (.localVar id) _ => ofLocal id
  | .name (.globalVar n) _ =>
    if facts.globals.stateOf n = some .unchanged then ⟨none, n⟩ else .empty
  | .member object name _ => (resolveWith facts ofLocal object).member name
  | .group inner _ => resolveWith facts ofLocal inner
  | _ => .empty

/-- The name an expression denotes, when at most `jumps` local variables are followed to the
expressions of their values. -/
def resolveWithin (facts : Facts) : Nat → BoundExpr → Builtin
  | 0 => facts.resolveWith fun _ => .empty
  | jumps + 1 => facts.resolveWith fun id =>
    match facts.locals.stableInit? id with
    | some e => facts.resolveWithin jumps e
    | none => .empty

/-- The name an expression denotes. The value of a variable refers to earlier declarations only,
so as many variables are followed as there are declarations. -/
def resolve (facts : Facts) (e : BoundExpr) : Builtin :=
  facts.resolveWithin facts.declarations e

end Facts

namespace Builtin

/-- Whether a name is that of the constructor of vectors. -/
def isVectorCtor (b : Builtin) (o : CompileOptions) : Bool :=
  match o.vectorCtor with
  | some ctor => b = ⟨o.vectorLib, ctor⟩
  | none => false

/-- The function with a fast path a name stands for. The configured constructor of vectors comes
first; `unpack` is a second name of `table.unpack`. -/
def function? (b : Builtin) (o : CompileOptions) : Option FastFunction :=
  if b.isEmpty then none
  else if b.isVectorCtor o then some FastFunction.vector
  else if b = ⟨none, "unpack"⟩ then FastFunction.find? (some "table") "unpack"
  else FastFunction.find? b.object b.method

/-- The number of the function a name stands for, `-1` if there is none. -/
def fastCallId (b : Builtin) (o : CompileOptions) : Int :=
  match b.function? o with
  | some f => f.id.toNat
  | none => -1

end Builtin

end ScriptCore
