import Std.Data.HashSet
import ScriptCore.Heap.Arena
import ScriptCore.Heap.Env
import ScriptCore.Heap.Table
import ScriptCore.Text.Utf8

set_option autoImplicit false

/-!
# The heap

The objects of a machine live in four arenas: strings, tables, closure environments and objects of
the host. Strings are interned, so that equal contents have one handle.

## Main definitions

* `ScriptCore.Heap` — the arenas, the interned contents and the marks of the collector.
* `ScriptCore.Heap.intern`, `ScriptCore.Heap.newTable`, `ScriptCore.Heap.newEnv`,
  `ScriptCore.Heap.newUserdata` — new objects.
* `ScriptCore.Heap.envGet`, `ScriptCore.Heap.envSet` — variables of enclosing environments.
* `ScriptCore.Heap.metatableOf`, `ScriptCore.Heap.metafield` — metatables.
-/

namespace ScriptCore

/-- An object of the host: a number that means something to it, and the handle of a metatable. -/
structure Userdata where
  metatable : Option Nat
  payload : Nat
deriving DecidableEq, Repr

/-- The objects of a machine. -/
structure Heap where
  strings : Arena (List UInt8)
  tables : Arena Table
  envs : Arena Env
  userdata : Arena (Option Userdata)
  /-- The handle of each string by its content. -/
  interned : Std.HashMap (List UInt8) Nat
  /-- The objects found by the collector since it last released any. -/
  marks : Std.HashSet Object
  /-- The bytes allocated since the last collection. -/
  allocated : Nat
  /-- The number of bytes above which a collection is due. -/
  threshold : Nat

namespace Heap

/-- The lowest number of bytes above which a collection is due. -/
def minThreshold : Nat := 1024 * 1024

/-- No object. -/
def empty : Heap := ⟨.empty, .empty, .empty, .empty, ∅, ∅, 0, minThreshold⟩

/-! ## New objects -/

/-- The handle of the string with the given content, which is allocated on first use. -/
def intern (h : Heap) (content : List UInt8) : Nat × Heap :=
  match h.interned[content]? with
  | some i => (i, h)
  | none =>
    let (i, strings) := h.strings.alloc content
    (i, { h with
      strings := strings
      interned := h.interned.insert content i
      allocated := h.allocated + content.length })

/-- The handle of the string with the given content, if there is one. -/
def find? (h : Heap) (content : List UInt8) : Option Nat := h.interned[content]?

/-- The bytes counted for a table with room for `size` entries. -/
def tableBytes (size : Nat) : Nat := 56 + 16 * size

/-- A new table with room for `size` entries. -/
def newTable (h : Heap) (size : Nat) : Nat × Heap :=
  let (i, tables) := h.tables.alloc .empty
  (i, { h with tables := tables, allocated := h.allocated + tableBytes size })

/-- The bytes counted for an environment. -/
def envBytes : Nat := 24

/-- A new closure environment with the given parent. -/
def newEnv (h : Heap) (parent : Option Nat) : Nat × Heap :=
  let (i, envs) := h.envs.alloc (.new parent)
  (i, { h with envs := envs, allocated := h.allocated + envBytes })

/-- The bytes counted for an object of the host. -/
def userdataBytes : Nat := 24

/-- A new object of the host. -/
def newUserdata (h : Heap) (payload : Nat) (metatable : Option Nat) : Nat × Heap :=
  let (i, userdata) := h.userdata.alloc (some ⟨metatable, payload⟩)
  (i, { h with userdata := userdata, allocated := h.allocated + userdataBytes })

/-- The object of the host under a handle; a released handle has none. -/
def userdata? (h : Heap) (i : Nat) : Option Userdata := (h.userdata.get? i).join

/-- Whether the index of an object is free. -/
def isFree (h : Heap) : Object → Bool
  | .string i => h.strings.isFree i
  | .table i => h.tables.isFree i
  | .userdata i => h.userdata.isFree i
  | .env i => h.envs.isFree i

/-! ## Closure environments -/

/-- The environment `level` links above `e`. -/
def envAbove? (h : Heap) : Nat → Nat → Option Nat
  | 0, e => some e
  | level + 1, e =>
    match (h.envs.get? e).bind Env.parent? with
    | some p => h.envAbove? level p
    | none => none

/-- The value of a slot of the environment `level` links above `e`; nil if there is none. -/
def envGet (h : Heap) (e level slot : Nat) : Value :=
  match (h.envAbove? level e).bind h.envs.get? with
  | some env => env.get slot
  | none => .nil

/-- Sets a slot of the environment `level` links above `e`, if there is one. -/
def envSet (h : Heap) (e level slot : Nat) (value : Value) : Heap :=
  match h.envAbove? level e with
  | some i => { h with envs := h.envs.modify i fun env => env.set slot value }
  | none => h

/-! ## Metatables -/

/-- The handle of the metatable a value has. Only tables and objects of the host have one. -/
def metatableOf (h : Heap) (v : Value) : Option Nat :=
  match v.object? with
  | some (.table i) => (h.tables.get? i).bind (·.metatable)
  | some (.userdata i) => (h.userdata? i).bind (·.metatable)
  | _ => none

/-- Sets the metatable of a value that can have one. -/
def setMetatable? (h : Heap) (v : Value) (metatable : Option Nat) : Option Heap :=
  match v.object? with
  | some (.table i) =>
    (h.tables.get? i).map fun t => { h with tables := h.tables.set i { t with metatable } }
  | some (.userdata i) =>
    (h.userdata? i).map fun u =>
      { h with userdata := h.userdata.set i (some { u with metatable }) }
  | _ => none

/-- The value of a key in a table; nil if there is no such table. -/
def tableGet (h : Heap) (i : Nat) (key : Value) : Value :=
  match h.tables.get? i with
  | some t => t.get key
  | none => .nil

/-- The value of a field of the metatable of `v`. A name that is not interned is no key of any
table. -/
def metafield (h : Heap) (v : Value) (event : String) : Value :=
  match h.metatableOf v, h.find? (Text.bytes event) with
  | some mt, some key => h.tableGet mt (.string key)
  | _, _ => .nil

end Heap

end ScriptCore
