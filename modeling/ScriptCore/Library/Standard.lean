import ScriptCore.Library.Base64

set_option autoImplicit false

/-!
# The standard libraries

## Main definitions

* `ScriptCore.openStandard` — registers all libraries.
-/

namespace ScriptCore

/-- Registers all libraries and leaves the stack as it was. -/
def openStandard {σ : Type} : Routine σ Unit := do
  let size : Int := (← Routine.frameSize : Nat)
  let _ ← Bit32.openLibrary
  let _ ← Base64.openLibrary
  Routine.ask (.setTop size)

end ScriptCore
