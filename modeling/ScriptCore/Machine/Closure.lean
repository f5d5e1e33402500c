import ScriptCore.Machine.Stack

set_option autoImplicit false

/-!
# Captured variables

Functions reach the variables they have captured by a level and a slot: the level is the number of
links from an environment on the stack to the one that holds the variable.

## Main definitions

* `ScriptCore.State.newClosureEnv`, `ScriptCore.State.pushCaptured`,
  `ScriptCore.State.storeCaptured`.
-/

namespace ScriptCore.State

/-- The handle of a value that must be a closure environment. -/
def envHandle (v : Value) : Action Nat :=
  match v.env? with
  | some e => return e
  | none => throw (.typeMismatch (.notEnv v.typeName))

/-- A new closure environment with the given parent. -/
def newEnv (parent : Option Nat) : Action Value :=
  modifyGet fun s =>
    let (i, heap) := s.heap.newEnv parent
    (.env i, { s with heap })

/-- Pushes a new environment inside the one at an index; nil there makes an outermost one. -/
def newClosureEnv (index : Int) : Action Unit := do
  let v := (← get).valueAt index
  let parent ← if v.isNil then pure none else some <$> envHandle v
  push (← newEnv parent)

/-- Pushes the value of a captured variable, seen from the environment at an index. -/
def pushCaptured (index : Int) (level slot : Nat) : Action Unit := do
  let e ← envHandle ((← get).valueAt index)
  push ((← get).heap.envGet e level slot)

/-- Takes the value on top into a captured variable, seen from the environment at an index. The
index is that before the value is taken. -/
def storeCaptured (index : Int) (level slot : Nat) : Action Unit := do
  let e ← envHandle ((← get).valueAt index)
  let v ← pop
  modify fun s => { s with heap := s.heap.envSet e level slot v }

end ScriptCore.State
