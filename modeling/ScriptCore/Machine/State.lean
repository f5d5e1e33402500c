import ScriptCore.Heap.Collector
import ScriptCore.Machine.Error
import ScriptCore.Machine.Slots

set_option autoImplicit false

/-!
# The state of a machine

A machine has a heap, a stack, the frames of the functions that are running, the functions it
knows, and two tables the host starts from: the globals, and the registry, which programs do not
see. The registry keeps the table of loaded libraries.

Operations on the state are actions: they may fail, and what they have done up to there stays.

## Main definitions

* `ScriptCore.State` — the state; `ScriptCore.State.new` — that of a new machine.
* `ScriptCore.Action` — operations that may fail.
* `ScriptCore.State.rawGet`, `ScriptCore.State.rawSet` and others — tables and metatables.
* `ScriptCore.State.show` — the text of a value.
-/

namespace ScriptCore

/-- A running function: the slot of its first argument, and its index among the functions; the
host has none. -/
structure Frame where
  base : Nat
  native : Option Nat
deriving DecidableEq, Repr

/-- What is known of a function: its name, and the values it was made with. -/
structure Native where
  name : String
  upvalues : Array Value

/-- The state of a machine. -/
structure State where
  heap : Heap
  stack : Slots
  /-- The first free slot of the stack. -/
  top : Nat
  /-- The running functions, the innermost first; the last one is the host. -/
  frames : List Frame
  natives : Array Native
  /-- The handle of the table of globals. -/
  globals : Nat
  /-- The handle of the registry. -/
  registry : Nat
  /-- Whether every occasion for a collection is taken. -/
  stress : Bool
  /-- Whether an operation has touched slots outside the stack. A machine in such a state must
  not be used any more. -/
  broken : Bool

/-- Operations that may fail; what they have done stays. -/
abbrev Action := ExceptT RuntimeError (StateM State)

namespace State

/-- The most frames there can be at a time. -/
def maxFrames : Nat := 200

/-- The key of the table of loaded libraries in the registry. -/
def loadedKey : String := "_LOADED"

/-- The state of a new machine: no global, and a registry with an empty table of libraries. -/
def new : State :=
  let (globals, heap) := Heap.empty.newTable 64
  let (registry, heap) := heap.newTable 4
  let (loaded, heap) := heap.newTable 16
  let (key, heap) := heap.intern (Text.bytes loadedKey)
  { heap := { heap with
      tables := heap.tables.modify registry (·.set (.string key) (.table loaded)) }
    stack := .empty
    top := 0
    frames := [⟨0, none⟩]
    natives := #[]
    globals := globals
    registry := registry
    stress := false
    broken := false }

/-- The slot of the first value of the current frame. -/
def base (s : State) : Nat := (s.frames.head?.map (·.base)).getD 0

/-- The number of values in the current frame. -/
def size (s : State) : Nat := s.top - s.base

/-- The function that is running. -/
def current? (s : State) : Option Native :=
  (s.frames.head?.bind (·.native)).bind (s.natives[·]?)

/-- The name of the function that is running. -/
def currentName? (s : State) : Option String := s.current?.map (·.name)

/-! ## Strings -/

/-- The string with the given content. -/
def internBytes (content : List UInt8) : Action Value :=
  modifyGet fun s =>
    let (i, heap) := s.heap.intern content
    (.string i, { s with heap })

/-- The string with the given text. -/
def intern (text : String) : Action Value := internBytes (Text.bytes text)

/-- The content of a string. -/
def bytes? (s : State) (v : Value) : Option (List UInt8) :=
  v.string?.bind s.heap.strings.get?

/-- The text of a string that holds UTF-8. -/
def text? (s : State) (v : Value) : Option String :=
  (s.bytes? v).bind Text.ofBytes?

/-! ## Tables -/

/-- A new table with room for `size` entries. -/
def newTable (size : Nat) : Action Value :=
  modifyGet fun s =>
    let (i, heap) := s.heap.newTable size
    (.table i, { s with heap })

/-- The value of a key; nil in what is no table. -/
def rawGet (s : State) (t key : Value) : Value :=
  match t.table? with
  | some i => s.heap.tableGet i key
  | none => .nil

/-- Whether a value can be a key: neither nil nor NaN. -/
def isKey (key : Value) : Bool :=
  !key.isNil && !(key.number?.map Binary64.isNaN).getD false

/-- Sets the value of a key of a table. -/
def rawSet (t key value : Value) : Action Unit := do
  if !isKey key then throw (.typeMismatch .badKey)
  let s ← get
  match t.table? with
  | none => throw (.typeMismatch (.notTable t.typeName))
  | some i =>
    if i < s.heap.tables.items.size then
      set { s with heap := { s.heap with tables := s.heap.tables.modify i (·.set key value) } }
    else throw (.typeMismatch (.notTable t.typeName))

/-- The value of a global. -/
def getGlobal (name : String) : Action Value := do
  let key ← intern name
  let s ← get
  return s.rawGet (.table s.globals) key

/-- Sets a global. -/
def setGlobal (name : String) (value : Value) : Action Unit := do
  let key ← intern name
  rawSet (.table (← get).globals) key value

/-- The value of a key of the registry. -/
def registryGet (name : String) : Action Value := do
  let key ← intern name
  let s ← get
  return s.rawGet (.table s.registry) key

/-! ## Metatables -/

/-- Sets the metatable of a table or of an object of the host; nil takes it away. -/
def setMetatable (v metatable : Value) : Action Unit := do
  if !metatable.isNil && !metatable.isTable then throw (.typeMismatch .badMetatable)
  let s ← get
  match s.heap.setMetatable? v metatable.table? with
  | some heap => set { s with heap }
  | none => throw (.typeMismatch (.noMetatable v.typeName))

/-- A new object of the host; a metatable that is no table is left out. -/
def newUserdata (payload : Nat) (metatable : Value) : Action Value :=
  modifyGet fun s =>
    let (i, heap) := s.heap.newUserdata payload metatable.table?
    (.userdata i, { s with heap })

/-! ## Functions -/

/-- A new function with the given name and upvalues. -/
def addNative (s : State) (name : String) (upvalues : Array Value) : Value × State :=
  (.function s.natives.size, { s with natives := s.natives.push ⟨name, upvalues⟩ })

/-- Upvalue `i` of the function that is running, counted from one. -/
def upvalue (s : State) (i : Nat) : Value :=
  match s.current? with
  | some n => if i = 0 then .nil else n.upvalues.getD (i - 1) .nil
  | none => .nil

/-! ## Texts -/

/-- The text of a number: an integer that is not too large without sign of a zero, and the
shortest decimal form otherwise. -/
def showNumber (x : Binary64) : String :=
  if x.isIntegral && x.truncate.natAbs < 1000000000000000 then toString x.truncate else x.plain

/-- The text of a value. -/
def «show» (s : State) (v : Value) : String :=
  if v.isString then
    match s.bytes? v with
    | some bs => Text.showBytes bs
    | none => "<bad string>"
  else
    match v.number?, v.bool?, v.function? with
    | some x, _, _ => showNumber x
    | _, some b, _ => if b then "true" else "false"
    | _, _, some i => "<function " ++ ((s.natives[i]?).map (·.name)).getD "?" ++ ">"
    | _, _, _ => if v.isNil then "nil" else v.typeName ++ ": " ++ v.describe

/-! ## Collection -/

/-- The values a collection starts from: the stack, the globals, the registry, and the upvalues of
all functions. -/
def roots (s : State) : List Value :=
  (List.range s.top).map s.stack.get ++ [.table s.globals, .table s.registry] ++
    s.natives.toList.flatMap fun n => n.upvalues.toList

/-- Releases the objects that cannot be reached from the roots. -/
def collect (s : State) : State :=
  let heap := (s.heap.trace s.roots).sweep
  { s with heap := { heap with threshold := max (heap.allocated * 2) Heap.minThreshold } }

/-- Whether a collection is due, now or always. -/
def isCollectionDue (s : State) : Bool := s.stress || s.heap.isDue

/-- Collects if it is due, and tells whether it was. -/
def maybeCollect : Action Bool :=
  modifyGet fun s => if s.isCollectionDue then (true, s.collect) else (false, s)

/-- Leaves all functions and empties the stack. -/
def reset (s : State) : State :=
  { s with frames := s.frames.drop (s.frames.length - 1), stack := .empty, top := 0 }

end State

end ScriptCore
