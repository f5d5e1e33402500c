import ScriptCore.Heap.Basic

set_option autoImplicit false

/-!
# Collection

A collection marks the objects that can be reached from given values and releases the others. An
object is reached through the keys, the values and the metatable of a table, through the slots of
an environment, and through the metatable of an object of the host.

## Main definitions

* `ScriptCore.Heap.references` — the values an object refers to.
* `ScriptCore.Heap.trace` — marking.
* `ScriptCore.Heap.sweep` — releasing.
-/

namespace ScriptCore.Heap

/-- The values an object refers to. -/
def references (h : Heap) : Object → List Value
  | .string _ => []
  | .table i => ((h.tables.get? i).map Table.references).getD []
  | .env i => ((h.envs.get? i).map fun e => e.slots.toList).getD []
  | .userdata i => (((h.userdata? i).bind (·.metatable)).map Value.table).toList

/-- The number of references in the heap. -/
def referenceCount (h : Heap) : Nat :=
  h.tables.items.foldl (fun n t => n + (2 * t.entries.size + 1)) 0 +
    h.envs.items.foldl (fun n e => n + e.slots.size) 0 + h.userdata.items.size

/-- Marks the objects of the values on a list and everything they refer to; at most `fuel` values
are looked at. The references of an object are put on the list when it is marked. -/
def mark (h : Heap) : Nat → List Value → Std.HashSet Object → Std.HashSet Object
  | 0, _, marks => marks
  | _ + 1, [], marks => marks
  | fuel + 1, v :: rest, marks =>
    match v.object? with
    | none => h.mark fuel rest marks
    | some o =>
      if marks.contains o then h.mark fuel rest marks
      else h.mark fuel (h.references o ++ rest) (marks.insert o)

/-- Marks everything that can be reached from the given values. Every reference of the heap comes
onto the list once at most. -/
def trace (h : Heap) (roots : List Value) : Heap :=
  { h with marks := h.mark (roots.length + h.referenceCount) roots h.marks }

/-- Releases the objects that are not marked and takes all marks away. The contents of released
strings are no longer interned. -/
def sweep (h : Heap) : Heap :=
  let lost := h.strings.unmarked fun i => h.marks.contains (.string i)
  { h with
    strings := h.strings.sweep (fun i => h.marks.contains (.string i)) []
    tables := h.tables.sweep (fun i => h.marks.contains (.table i)) .empty
    envs := h.envs.sweep (fun i => h.marks.contains (.env i)) (.new none)
    userdata := h.userdata.sweep (fun i => h.marks.contains (.userdata i)) none
    interned := lost.foldl (fun m i => m.erase ((h.strings.get? i).getD [])) h.interned
    marks := ∅
    allocated := 0 }

/-- Whether a collection is due. -/
def isDue (h : Heap) : Bool := h.threshold < h.allocated

end ScriptCore.Heap
