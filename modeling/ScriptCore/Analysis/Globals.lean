import ScriptCore.Source.Node
import ScriptCore.Source.Scope

set_option autoImplicit false

/-!
# Globals that may change

A global can stand for a function of a library only while nothing replaces it. The tracker keeps
a state for each name it has met: mentioned, assigned in some tracked program, or declared by the
host to be replaceable. Where in a program an assignment stands makes no difference.

## Main definitions

* `ScriptCore.Globals` — the tracker, with `mention`, `write` and `track`.
* `ScriptCore.Program.globalEvents` — the mentions and assignments of globals in a program.
-/

namespace ScriptCore

/-- What is known about a global. -/
inductive GlobalState
  /-- Mentioned, and assigned nowhere. -/
  | unchanged
  /-- Replaceable by the host. -/
  | replaceable
  /-- Assigned somewhere. -/
  | written
deriving DecidableEq, Repr

/-- The states of the globals met so far; the first entry of a name counts. -/
structure Globals where
  states : List (String × GlobalState)

namespace Globals

/-- No global met. -/
def empty : Globals := ⟨[]⟩

/-- The state of a name, if it has been met. -/
def stateOf (g : Globals) (name : String) : Option GlobalState :=
  g.states.lookup name

/-- Sets the state of a name. -/
def set (g : Globals) (name : String) (state : GlobalState) : Globals :=
  ⟨(name, state) :: g.states⟩

/-- The names every host can replace. -/
def alwaysReplaceable : List String := ["_G"]

/-- The tracker in which the given names, and those every host can replace, are replaceable. -/
def withReplaceable (names : List String) : Globals :=
  (alwaysReplaceable ++ names).foldl (fun g name => g.set name .replaceable) empty

/-- Records that a name is mentioned. A known state stays. -/
def mention (g : Globals) (name : String) : Globals :=
  match g.stateOf name with
  | none => g.set name .unchanged
  | some _ => g

/-- Records that a name is assigned. A replaceable name stays replaceable. -/
def write (g : Globals) (name : String) : Globals :=
  match g.stateOf name with
  | none | some .unchanged => g.set name .written
  | some .replaceable | some .written => g

end Globals

/-- What a program does with a global. -/
inductive GlobalEvent
  | mention (name : String)
  | write (name : String)
deriving DecidableEq, Repr

/-- The name of a bare global. -/
def Expr.globalName? : BoundExpr → Option String
  | name (.globalVar n) _ => some n
  | _ => none

/-- The targets of a statement that assigns: assignments, compound assignments and function
statements. -/
def Stmt.targets {ρ β : Type} : Stmt ρ β → List (Expr ρ β)
  | assign targets _ _ => targets
  | compound _ target _ _ => [target]
  | functionDecl target _ _ => [target]
  | _ => []

/-- What a node itself, without its parts, does with globals. -/
def Node.globalEvents : Node Reference LocalId → List GlobalEvent
  | expr e => (e.globalName?.map GlobalEvent.mention).toList
  | stmt s => (s.targets.filterMap Expr.globalName?).map GlobalEvent.write
  | item _ | block _ => []

/-- The mentions and assignments of globals in a program, in the order of its nodes. -/
def Program.globalEvents (p : Program) : List GlobalEvent :=
  (Node.block p.body).nodes.flatMap Node.globalEvents

namespace Globals

/-- Records one event. -/
def record (g : Globals) : GlobalEvent → Globals
  | .mention name => g.mention name
  | .write name => g.write name

/-- Records all mentions and assignments of a program. -/
def track (g : Globals) (p : Program) : Globals :=
  p.globalEvents.foldl record g

end Globals

end ScriptCore
