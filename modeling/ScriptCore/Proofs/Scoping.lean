import Mathlib
import ScriptCore.Analysis.Variables
import ScriptCore.Proofs.Traversal

set_option relaxedAutoImplicit false
set_option autoImplicit false

/-!
# The scoping rules

Which declarations are visible at a place of a bound tree, as the language defines it, without the
walk that binds the names:

* the names of a `local` statement are visible behind it, in the rest of its block;
* the name of a local function is visible in its body too;
* parameters, with the implicit one of a method, are visible in the body of their function;
* loop variables are visible in the body of their loop, and not in its header;
* the condition of a `repeat` loop sees what its body declares;
* each block closes its scope, and the latest binding of a name wins.

What is visible is handed down from a node to its parts, so the rules give a walk over the tree.

## Main definitions

* `ScriptCore.Visible` — what the visible names stand for.
* `ScriptCore.Node.scoped`, `ScriptCore.scoping` — the rules.
* `ScriptCore.Program.scopedNodes` — the nodes of a program with what is visible there.
* `ScriptCore.Visible.Resolves` — what a use of a name has to refer to.
* `ScriptCore.Node.declared`, `ScriptCore.declaredIn` — the declarations of a node and of trees.

## Main results

* `ScriptCore.Program.map_snd_scopedNodes` — the walk meets every node of the program.
-/

namespace ScriptCore

/-- What the visible names stand for, the latest binding first. -/
abbrev Visible := List (String × LocalId)

namespace Visible

variable (locals : Array LocalDecl)

/-- Makes a declaration visible under its name. -/
def bind (v : Visible) (id : LocalId) : Visible :=
  match locals[id]? with
  | some d => (d.name, id) :: v
  | none => v

/-- Makes declarations visible, one after the other. -/
def bindAll (v : Visible) (ids : List LocalId) : Visible :=
  ids.foldl (bind locals) v

/-- What a use of a name has to refer to: a local is what its name stands for, and the name of a
global stands for nothing. -/
def Resolves (v : Visible) : Reference → Prop
  | .localVar id => ∃ d, locals[id]? = some d ∧ v.lookup d.name = some id
  | .globalVar name => v.lookup name = none

variable {locals}

/-- A local that a use refers to is visible. -/
lemma Resolves.exists_mem {v : Visible} {id : LocalId} (h : v.Resolves locals (.localVar id)) :
    ∃ b ∈ v, b.2 = id := by
  obtain ⟨d, -, hlookup⟩ := h
  obtain ⟨front, rest, hsplit, -⟩ := List.lookup_eq_some_iff.1 hlookup
  refine ⟨(d.name, id), ?_, rfl⟩
  rw [hsplit]
  exact List.mem_append_right _ List.mem_cons_self

end Visible

section Rules

variable (locals : Array LocalDecl)

/-- What is visible behind a statement. -/
def Stmt.visibleAfter (v : Visible) : BoundStmt → Visible
  | .localVars vars _ _ => v.bindAll locals vars
  | .localFunction var _ _ => v.bind locals var
  | _ => v

/-- What is visible behind the statements of a block, inside the block. -/
def visibleBehind (v : Visible) (stmts : List BoundStmt) : Visible :=
  stmts.foldl (Stmt.visibleAfter locals) v

/-- The statements of a block with what is visible there. -/
def scopedStmts (v : Visible) : List BoundStmt → List (Visible × Node Reference LocalId)
  | [] => []
  | s :: ss => (v, .stmt s) :: scopedStmts (s.visibleAfter locals v) ss

/-- The parts of a node with what is visible there. -/
def Node.scoped (v : Visible) : Node Reference LocalId → List (Visible × Node Reference LocalId)
  | .block b => scopedStmts locals v b.stmts
  | .expr (.function f) => [(v.bindAll locals f.params, .block f.body)]
  | .stmt (.localFunction var f _) => [(v.bind locals var, .expr (.function f))]
  | .stmt (.repeatLoop body condition _) =>
    [(v, .block body), (visibleBehind locals v body.stmts, .expr condition)]
  | .stmt (.numericFor var start limit step body _) =>
    (v, .expr start) :: (v, .expr limit) ::
      (step.toList.map (fun e => (v, .expr e)) ++ [(v.bind locals var, .block body)])
  | .stmt (.genericFor vars values body _) =>
    values.map (fun e => (v, .expr e)) ++ [(v.bindAll locals vars, .block body)]
  | n => n.children.map fun c => (v, c)

lemma map_snd_scopedStmts (ss : List BoundStmt) :
    ∀ v, (scopedStmts locals v ss).map Prod.snd = ss.map Node.stmt := by
  induction ss with
  | nil => intro v; rfl
  | cons s ss ih =>
    intro v
    rw [scopedStmts, List.map_cons, List.map_cons, ih]

lemma Node.map_snd_scoped (v : Visible) (n : Node Reference LocalId) :
    (n.scoped locals v).map Prod.snd = n.children := by
  have hsame : ∀ cs : List (Node Reference LocalId),
      (cs.map fun c => ((v, c) : Visible × Node Reference LocalId)).map Prod.snd = cs := by
    intro cs
    rw [List.map_map]
    exact List.map_id cs
  unfold Node.scoped
  split
  · exact map_snd_scopedStmts locals _ v
  · rfl
  · rfl
  · rfl
  · simp [Node.children, Stmt.children, Function.comp_def]
  · simp [Node.children, Stmt.children, Function.comp_def]
  · exact hsame _

/-- The rule that hands down what is visible. -/
def scoping : Inherited Reference LocalId Visible where
  parts v n := n.scoped locals v
  map_snd_parts v n := n.map_snd_scoped locals v

end Rules

namespace Program

/-- The nodes of a program with what is visible there. -/
def scopedNodes (p : Program) : List (Visible × Node Reference LocalId) :=
  (scoping p.locals).preorder [] (.block p.body)

/-- The walk meets every node of the program, in the order of the text. -/
theorem map_snd_scopedNodes (p : Program) :
    p.scopedNodes.map Prod.snd = (Node.block p.body).nodes :=
  (scoping p.locals).map_snd_preorder [] (.block p.body)

end Program

/-! ## Declarations of trees -/

/-- The declarations a node makes itself. -/
def Node.declared : Node Reference LocalId → List LocalId
  | .expr (.function f) => f.params
  | .stmt (.localVars vars _ _) => vars
  | .stmt (.localFunction var _ _) => [var]
  | .stmt (.numericFor var _ _ _ _ _) => [var]
  | .stmt (.genericFor vars _ _ _) => vars
  | _ => []

/-- The declarations of some trees, in the order of their nodes. -/
def declaredIn (ns : List (Node Reference LocalId)) : List LocalId :=
  (ns.flatMap Node.nodes).flatMap Node.declared

@[simp]
lemma declaredIn_nil : declaredIn [] = [] := rfl

lemma declaredIn_append (ms ns : List (Node Reference LocalId)) :
    declaredIn (ms ++ ns) = declaredIn ms ++ declaredIn ns := by
  simp [declaredIn]

/-- The declarations of a tree are those of its root and of its parts. -/
lemma declaredIn_singleton (n : Node Reference LocalId) :
    declaredIn [n] = n.declared ++ declaredIn n.children := by
  rw [declaredIn, List.flatMap_cons, List.flatMap_nil, List.append_nil, Node.nodes_eq,
    List.flatMap_cons]
  rfl

end ScriptCore
