import ScriptCore.Analysis.Globals

set_option autoImplicit false

/-!
# Local variables that keep their first value

For each local declaration the tracker keeps the expression that gives it its first value, if
there is exactly one, and whether the variable is assigned anywhere later.

## Main definitions

* `ScriptCore.Variable`, `ScriptCore.Variables` — the facts, by declaration.
* `ScriptCore.Program.localVariables` — the facts of a program.
-/

namespace ScriptCore

/-- What is known about a local variable. -/
structure Variable where
  /-- The expression of its first value. -/
  init : Option BoundExpr
  /-- Whether it is assigned after its declaration. -/
  written : Bool

/-- Whether a variable holds its first value wherever it is read. -/
def Variable.isStable (v : Variable) : Bool := !v.written

/-- The facts of the declarations met so far; the first entry of a declaration counts. -/
structure Variables where
  facts : List (LocalId × Variable)

namespace Variables

/-- No declaration met. -/
def empty : Variables := ⟨[]⟩

/-- The facts of a declaration. -/
def find? (v : Variables) (id : LocalId) : Option Variable :=
  v.facts.lookup id

/-- Records a declaration. -/
def declare (v : Variables) (id : LocalId) (init : Option BoundExpr) : Variables :=
  ⟨(id, ⟨init, false⟩) :: v.facts⟩

/-- Records an assignment. -/
def write (v : Variables) (id : LocalId) : Variables :=
  ⟨(id, { (v.find? id).getD ⟨none, false⟩ with written := true }) :: v.facts⟩

/-- The expression of the only value a variable ever has. -/
def stableInit? (v : Variables) (id : LocalId) : Option BoundExpr :=
  match v.find? id with
  | some x => if x.isStable then x.init else none
  | none => none

end Variables

/-- What a program does with a local variable. -/
inductive VariableEvent
  | declare (id : LocalId) (init : Option BoundExpr)
  | write (id : LocalId)

/-- The first values of the variables of a `local` statement. A last expression with any number of
values fills all places from its own on, so that no variable there has an expression of its own. -/
def initializers : List LocalId → List BoundExpr → List (LocalId × Option BoundExpr)
  | [], _ => []
  | id :: ids, [] => (id, none) :: initializers ids []
  | id :: ids, [e] =>
    if e.isMultiValue then (id, none) :: initializers ids [] else (id, some e) :: initializers ids []
  | id :: ids, e :: es => (id, some e) :: initializers ids es

/-- The declaration of a bare local. -/
def Expr.localId? : BoundExpr → Option LocalId
  | name (.localVar id) _ => some id
  | _ => none

/-- The declarations a statement makes itself. -/
def Stmt.declarations : BoundStmt → List (LocalId × Option BoundExpr)
  | localVars vars values _ => initializers vars values
  | localFunction var f _ => [(var, some (.function f))]
  | numericFor var .. => [(var, none)]
  | genericFor vars .. => vars.map (·, none)
  | _ => []

/-- What a node itself, without its parts, does with local variables. -/
def Node.variableEvents : Node Reference LocalId → List VariableEvent
  | expr (.function f) => f.params.map (.declare · none)
  | stmt s =>
    s.declarations.map (fun d => .declare d.1 d.2) ++
      (s.targets.filterMap Expr.localId?).map .write
  | expr _ | item _ | block _ => []

/-- The declarations and assignments of local variables in a program, in the order of its
nodes. -/
def Program.variableEvents (p : Program) : List VariableEvent :=
  (Node.block p.body).nodes.flatMap Node.variableEvents

namespace Variables

/-- Records one event. -/
def record (v : Variables) : VariableEvent → Variables
  | .declare id init => v.declare id init
  | .write id => v.write id

end Variables

/-- The facts of the local variables of a program. -/
def Program.localVariables (p : Program) : Variables :=
  p.variableEvents.foldl Variables.record Variables.empty

end ScriptCore
