import ScriptCore.Compile.Toml

set_option autoImplicit false

/-!
# Options of a compilation

## Main definitions

* `ScriptCore.CompileOptions` — what the host configures.
* `ScriptCore.CompileOptions.ofToml` — the options of a configuration document.
-/

namespace ScriptCore

/-- What the host configures for a compilation. -/
structure CompileOptions where
  /-- At level zero no call takes a fast path. -/
  optimizationLevel : UInt8 := 1
  /-- The name of the constructor of vectors, if the host has one. -/
  vectorCtor : Option String := none
  /-- The library that holds the constructor; without one it is a global. -/
  vectorLib : Option String := none
  /-- Globals the host may replace while a program runs. -/
  mutableGlobals : List String := []
deriving DecidableEq, Repr

/-- Why a configuration document gives no options. -/
inductive OptionsError
  /-- The document is malformed, or a setting has a value of a wrong kind. -/
  | badDocument
  /-- A library is named for the constructor of vectors, but no constructor. -/
  | libraryWithoutCtor
deriving DecidableEq, Repr

/-- The wording of an options error, where it has one of its own. -/
def OptionsError.message? : OptionsError → Option String
  | badDocument => none
  | libraryWithoutCtor =>
    some "invalid compile options: vector_lib is set without vector_ctor"

namespace CompileOptions

/-- Whether calls may take fast paths. -/
def fastCalls (o : CompileOptions) : Bool := 1 ≤ o.optimizationLevel

/-- The number of a level. -/
def level? : Toml.Value → Option UInt8
  | .integer n => if 0 ≤ n ∧ n < 256 then some (UInt8.ofNat n.toNat) else none
  | _ => none

/-- The text of a string. -/
def string? : Toml.Value → Option String
  | .string s => some s
  | _ => none

/-- The texts of an array of strings. -/
def strings? : Toml.Value → Option (List String)
  | .array items => items.mapM string?
  | _ => none

/-- The keys of the options. -/
def keys : List String :=
  ["optimization_level", "vector_ctor", "vector_lib", "mutable_globals"]

/-- Whether a path leads into something that should be a single option. -/
def entersOption : List String → Bool
  | key :: _ => keys.contains key
  | [] => false

/-- The options with one setting applied, if its value is of the right kind. Other keys mean
nothing. -/
def apply (o : CompileOptions) : Toml.Setting → Option CompileOptions
  | (["optimization_level"], v) => (level? v).map fun n => { o with optimizationLevel := n }
  | (["vector_ctor"], v) => (string? v).map fun s => { o with vectorCtor := some s }
  | (["vector_lib"], v) => (string? v).map fun s => { o with vectorLib := some s }
  | (["mutable_globals"], v) => (strings? v).map fun l => { o with mutableGlobals := l }
  | (path, _) => if entersOption path then none else some o

/-- The options of a document, if all its settings are of the right kinds. Options that are not
set have their default. -/
def ofDocument? (d : Toml.Document) : Option CompileOptions :=
  if d.sections.any entersOption then none else d.settings.foldlM apply {}

/-- The options of a configuration document. -/
def ofToml (text : String) : Except OptionsError CompileOptions :=
  match (Toml.parse? text).bind ofDocument? with
  | none => .error .badDocument
  | some o =>
    if o.vectorLib.isSome ∧ o.vectorCtor.isNone then .error .libraryWithoutCtor else .ok o

end CompileOptions

end ScriptCore
