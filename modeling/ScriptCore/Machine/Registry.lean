import ScriptCore.Machine.Stack

set_option autoImplicit false

/-!
# Registration of libraries

Each library has one table, which is recorded under the name of the library in the table of loaded
libraries. The table of a new library is found by following the parts of its name, separated by
dots, from the globals; missing tables on this way are made.

## Main definitions

* `ScriptCore.State.registerLibrary` — the table of a library.
-/

namespace ScriptCore.State

/-- The parts of a name between its dots. -/
def nameParts (name : String) : List String :=
  (name.toList.splitOn '.').map String.ofList

/-- The table of loaded libraries; a new one if the registry has lost it. -/
def loadedTable : Action Value := do
  let loaded ← registryGet loadedKey
  if loaded.isTable then return loaded
  let loaded ← newTable 16
  let key ← intern loadedKey
  rawSet (.table (← get).registry) key loaded
  return loaded

/-- Follows the parts of the name of a library from a table. Missing tables are made, the last one
with room for `size` entries. -/
def findTable (library : String) (size : Nat) : List String → Value → Action Value
  | [], current => return current
  | part :: rest, current => do
    let key ← intern part
    let existing := (← get).rawGet current key
    if existing.isNil then
      let table ← newTable (if rest.isEmpty then size else 1)
      rawSet current key table
      findTable library size rest table
    else if existing.isTable then findTable library size rest existing
    else throw (.nameConflict library)

/-- The table of a library, found or made with room for `size` entries and recorded on first use.
It is left on top of the stack too. -/
def registerLibrary (name : String) (size : Nat) : Action Value := do
  let loaded ← loadedTable
  let key ← intern name
  let existing := (← get).rawGet loaded key
  if existing.isTable then
    push existing
    return existing
  let table ← findTable name size (nameParts name) (.table (← get).globals)
  rawSet loaded key table
  push table
  return table

end ScriptCore.State
