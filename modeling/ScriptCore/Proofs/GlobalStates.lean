import Mathlib
import ScriptCore.Proofs.Tracking
import ScriptCore.Proofs.TreeParts

set_option relaxedAutoImplicit false
set_option autoImplicit false

/-!
# The states of globals after any operations

A tracker of globals is told about single names and about whole programs, in any order and as often
as one likes. What it knows of a name in the end depends on what it has been told, and not on the
order: being replaceable comes before being assigned, and being assigned before being mentioned.

## Main definitions

* `ScriptCore.Globals.Operation` — what a tracker may be told, with `Operation.Assigns` and
  `Operation.Mentions` for what that says of a name.
* `ScriptCore.Globals.settled` — the state of a name in closed form.

## Main results

* `ScriptCore.Globals.stateOf_perform` — the closed form is what the tracker knows.
* `ScriptCore.Globals.perform_settles` — the order of the operations does not matter, and names that
  are written or replaceable stay so.
-/

namespace ScriptCore

namespace Globals

/-! ## Operations -/

/-- What a tracker of globals may be told. -/
inductive Operation
  | mention (name : String)
  | write (name : String)
  | track (p : Program)

namespace Operation

/-- Tells a tracker. -/
def apply (g : Globals) : Operation → Globals
  | mention name => g.mention name
  | write name => g.write name
  | track p => g.track p

/-- **Whether an operation says that a name is assigned**: it says so outright, or the program it
brings contains, at any depth, a statement that assigns to the bare global. -/
inductive Assigns (n : String) : Operation → Prop
  | write : Assigns n (.write n)
  | track {p : Program} {s : BoundStmt} {pos : Position} (hs : p.Contains (.stmt s))
    (h : s.AssignsTo (.name (.globalVar n) pos)) : Assigns n (.track p)

/-- **Whether an operation mentions a name**: it says so outright, or the program it brings contains
the global at any depth. -/
inductive Mentions (n : String) : Operation → Prop
  | mention : Mentions n (.mention n)
  | track {p : Program} {pos : Position}
    (h : p.Contains (.expr (.name (.globalVar n) pos))) : Mentions n (.track p)

/-- What the tracker records of an operation, one event after the other. -/
def events : Operation → List GlobalEvent
  | mention name => [.mention name]
  | write name => [.write name]
  | track p => p.globalEvents

lemma apply_eq (g : Globals) (o : Operation) : o.apply g = o.events.foldl record g := by
  cases o <;> rfl

lemma write_mem_events {n : String} {o : Operation} : .write n ∈ o.events ↔ o.Assigns n := by
  cases o with
  | mention name => exact ⟨fun h => absurd (List.mem_singleton.1 h) (by simp), nofun⟩
  | write name =>
    constructor
    · intro h
      cases List.mem_singleton.1 h
      exact .write
    · rintro ⟨⟩
      exact List.mem_singleton_self _
  | track p =>
    rw [events, Program.write_mem_globalEvents, Program.Assigns]
    constructor
    · rintro ⟨s, pos, hs, h⟩
      exact .track (Program.contains_iff.2 hs) h
    · intro h
      cases h with
      | track hs h => exact ⟨_, _, Program.contains_iff.1 hs, h⟩

lemma mention_mem_events {n : String} {o : Operation} : .mention n ∈ o.events ↔ o.Mentions n := by
  cases o with
  | mention name =>
    constructor
    · intro h
      cases List.mem_singleton.1 h
      exact .mention
    · rintro ⟨⟩
      exact List.mem_singleton_self _
  | write name => exact ⟨fun h => absurd (List.mem_singleton.1 h) (by simp), nofun⟩
  | track p =>
    rw [events, Program.mention_mem_globalEvents]
    constructor
    · rintro ⟨pos, h⟩
      exact .track (Program.contains_iff.2 h)
    · intro h
      cases h with
      | track h => exact ⟨_, Program.contains_iff.1 h⟩

instance (n : String) (o : Operation) : Decidable (o.Assigns n) :=
  decidable_of_iff _ write_mem_events

instance (n : String) (o : Operation) : Decidable (o.Mentions n) :=
  decidable_of_iff _ mention_mem_events

end Operation

/-- Tells a tracker one thing after the other. -/
def perform (g : Globals) (ops : List Operation) : Globals := ops.foldl Operation.apply g

/-- The tracker to start from: the empty one, or the one in which the given names are replaceable. -/
def initial : Option (List String) → Globals
  | none => empty
  | some names => withReplaceable names

/-- The names that are replaceable from the start. -/
def preset : Option (List String) → List String
  | none => []
  | some names => "_G" :: names

/-! ## The closed form -/

/-- **The state of a name in closed form.** It is replaceable if it was so from the start; else
written if an operation assigns it; else unchanged if an operation mentions it; else unknown. -/
def settled (start : Option (List String)) (ops : List Operation) (n : String) :
    Option GlobalState :=
  if n ∈ preset start then some .replaceable
  else if ∃ o ∈ ops, o.Assigns n then some .written
  else if ∃ o ∈ ops, o.Mentions n then some .unchanged
  else none

variable {start : Option (List String)} {ops ops' : List Operation} {n : String}

lemma perform_eq (g : Globals) (ops : List Operation) :
    perform g ops = (ops.flatMap Operation.events).foldl record g := by
  induction ops generalizing g with
  | nil => rfl
  | cons o ops ih =>
    rw [perform, List.foldl_cons, List.flatMap_cons, List.foldl_append, ← Operation.apply_eq]
    exact ih _

lemma stateOf_initial :
    (initial start).stateOf n = if n ∈ preset start then some .replaceable else none := by
  cases start with
  | none => rfl
  | some names => exact stateOf_withReplaceable names

/-- **What a tracker knows of a name is the closed form.** -/
theorem stateOf_perform : (perform (initial start) ops).stateOf n = settled start ops n := by
  rw [perform_eq, stateOf_foldl_record_eq, stateOf_initial, settled]
  have hwrite : .write n ∈ ops.flatMap Operation.events ↔ ∃ o ∈ ops, o.Assigns n := by
    simp only [List.mem_flatMap, Operation.write_mem_events]
  have hmention : .mention n ∈ ops.flatMap Operation.events ↔ ∃ o ∈ ops, o.Mentions n := by
    simp only [List.mem_flatMap, Operation.mention_mem_events]
  by_cases h : n ∈ preset start
  · rw [if_pos h, if_pos h]
  · rw [if_neg h, if_neg h]
    exact if_congr hwrite rfl (if_congr hmention rfl rfl)

/-- The closed form speaks of the operations as a set. -/
lemma settled_congr (h : ∀ o, o ∈ ops' ↔ o ∈ ops) : settled start ops' n = settled start ops n := by
  have hassigns : (∃ o ∈ ops', o.Assigns n) ↔ ∃ o ∈ ops, o.Assigns n := by simp only [h]
  have hmentions : (∃ o ∈ ops', o.Mentions n) ↔ ∃ o ∈ ops, o.Mentions n := by simp only [h]
  exact if_congr Iff.rfl rfl (if_congr hassigns rfl (if_congr hmentions rfl rfl))

/-- Further operations leave a name written or replaceable. -/
lemma settled_append {more : List Operation} {state : GlobalState}
    (hstate : state = .written ∨ state = .replaceable)
    (h : settled start ops n = some state) : settled start (ops ++ more) n = some state := by
  unfold settled at h ⊢
  by_cases hpreset : n ∈ preset start
  · rw [if_pos hpreset] at h ⊢
    exact h
  rw [if_neg hpreset] at h ⊢
  by_cases hassigns : ∃ o ∈ ops, o.Assigns n
  · obtain ⟨o, ho, hn⟩ := hassigns
    rw [if_pos ⟨o, ho, hn⟩] at h
    rw [if_pos ⟨o, List.mem_append_left _ ho, hn⟩]
    exact h
  · -- what is only mentioned is neither written nor replaceable
    rw [if_neg hassigns] at h
    split at h
    · rcases hstate with rfl | rfl <;> cases h
    · cases h

/-- **The states of globals do not depend on the order of operations.** Take the empty tracker, or
one in which some names are replaceable, and tell it of names and programs. The state of every name
is the closed form; sequences of the same operations, in whatever order and however often each is
repeated, lead to the same states; and a name that is written or replaceable stays so whatever the
tracker is told further.

**Proof sketch.** The tracker records the events of the operations one by one, and its state is that
of the last step of a fold over them. By induction on the events, only their set matters. -/
theorem perform_settles (start : Option (List String)) (ops : List Operation) :
    (∀ n, (perform (initial start) ops).stateOf n = settled start ops n) ∧
    (∀ ops', (∀ o, o ∈ ops' ↔ o ∈ ops) → ∀ n,
      (perform (initial start) ops').stateOf n = (perform (initial start) ops).stateOf n) ∧
    ∀ more n state, state = .written ∨ state = .replaceable →
      (perform (initial start) ops).stateOf n = some state →
      (perform (initial start) (ops ++ more)).stateOf n = some state := by
  refine ⟨fun n => stateOf_perform, fun ops' h n => ?_, fun more n state hstate h => ?_⟩
  · rw [stateOf_perform, stateOf_perform, settled_congr h]
  · rw [stateOf_perform] at h ⊢
    exact settled_append hstate h

/-- The program of `function f() print, y = y end`. -/
def assigning : Program where
  body := .mk ⟨1, 1⟩ [.functionDecl (.name (.globalVar "f") ⟨1, 10⟩)
    (.mk [] false (.mk ⟨1, 14⟩ [.assign [.name (.globalVar "print") ⟨1, 14⟩,
      .name (.globalVar "y") ⟨1, 21⟩] [.name (.globalVar "y") ⟨1, 25⟩] ⟨1, 14⟩]) ⟨1, 1⟩) ⟨1, 1⟩]
  locals := #[]

/-- Operations that assign `y` first. -/
def assignedFirst : List Operation := [.track assigning, .mention "y", .write "print"]

/-- The same operations, one of them twice, that mention `y` first. -/
def mentionedFirst : List Operation :=
  [.mention "y", .write "print", .track assigning, .mention "y"]

/-- In both orders `print` is replaceable and `y`, which is assigned inside of a function, is
written; and they stay so. -/
theorem perform_settles_assigning :
    (∀ o, o ∈ mentionedFirst ↔ o ∈ assignedFirst) ∧
    (perform (initial (some ["print"])) mentionedFirst).stateOf "y" = some .written ∧
    (perform (initial (some ["print"])) (assignedFirst ++ [.mention "y"])).stateOf "y" =
      some .written ∧
    (perform (initial (some ["print"])) (assignedFirst ++ [.write "print"])).stateOf "print" =
      some .replaceable := by
  have hsame : ∀ o, o ∈ mentionedFirst ↔ o ∈ assignedFirst := by
    intro o
    simp only [mentionedFirst, assignedFirst, List.mem_cons, List.not_mem_nil, or_false]
    tauto
  have hy : (perform (initial (some ["print"])) assignedFirst).stateOf "y" = some .written := by
    cbv
  have hprint : (perform (initial (some ["print"])) assignedFirst).stateOf "print" =
      some .replaceable := by
    cbv
  obtain ⟨-, hset, hstays⟩ := perform_settles (some ["print"]) assignedFirst
  exact ⟨hsame, (hset _ hsame "y").trans hy, hstays _ "y" _ (.inl rfl) hy,
    hstays _ "print" _ (.inr rfl) hprint⟩

end Globals

end ScriptCore
