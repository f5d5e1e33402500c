set_option autoImplicit false

/-!
# Errors of a running program

## Main definitions

* `ScriptCore.RuntimeError` — the causes for which an operation of the machine fails.
* `ScriptCore.RuntimeError.message` — their wording.
-/

namespace ScriptCore

/-- Why a value is of a wrong type. -/
inductive Mismatch
  /-- Nil and NaN are no keys. -/
  | badKey
  /-- A value of this type is indexed. -/
  | notTable (type : String)
  /-- A metatable is neither a table nor nil. -/
  | badMetatable
  /-- A value of this type has no metatable. -/
  | noMetatable (type : String)
  /-- A value of this type stands for a closure environment. -/
  | notEnv (type : String)
deriving DecidableEq, Repr

/-- Why an operation of the machine fails. -/
inductive RuntimeError
  | stackOverflow
  | stackUnderflow
  /-- An index refers to no value of the current frame. -/
  | invalidIndex (index : Int)
  /-- An instruction is not arithmetic. -/
  | invalidOpcode (code : UInt8)
  /-- Operands are not numbers and have no handler. -/
  | arithmetic
  /-- Operands cannot be compared and have no handler. -/
  | compare
  /-- A value of this type is called. -/
  | notCallable (type : String)
  /-- A part of a library's name is taken by a value that is no table. -/
  | nameConflict (library : String)
  | typeMismatch (cause : Mismatch)
  /-- An argument of a function is not what it should be. -/
  | badArgument (arg : Nat) (function : String) (message : String)
  /-- An error of a function's own. -/
  | custom (message : String)
deriving DecidableEq, Repr

/-- The wording of a mismatch. -/
def Mismatch.message : Mismatch → String
  | badKey => "table index is nil or NaN"
  | notTable type => "attempt to index a " ++ type ++ " value"
  | badMetatable => "metatable must be a table or nil"
  | noMetatable type => "cannot set metatable of a " ++ type ++ " value"
  | notEnv type => "expected closure environment, got " ++ type

/-- The wording of an error. -/
def RuntimeError.message : RuntimeError → String
  | stackOverflow => "stack overflow"
  | stackUnderflow => "stack underflow"
  | invalidIndex index => "invalid stack index " ++ toString index
  | invalidOpcode code => "invalid opcode " ++ toString code.toNat
  | arithmetic => "attempt to perform arithmetic"
  | compare => "attempt to compare"
  | notCallable type => "attempt to call a " ++ type ++ " value"
  | nameConflict library => "name conflict for module '" ++ library ++ "'"
  | typeMismatch cause => "type mismatch: " ++ cause.message
  | badArgument arg function message =>
    "bad argument #" ++ toString arg ++ " to '" ++ function ++ "' (" ++ message ++ ")"
  | custom message => message

end ScriptCore
