import Mathlib
import ScriptCore.Proofs.Renaming
import ScriptCore.Proofs.Tracking
import ScriptCore.Proofs.TreeParts

set_option relaxedAutoImplicit false
set_option autoImplicit false

/-!
# What is known of every local variable

The tracker of local variables overwrites what it knows of a variable when it meets a declaration.
In the program of a source text each variable is declared in one place, before it is used, so in the
end the tracker knows of each what that place gives it, and whether anything assigns it.

## Main definitions

* `ScriptCore.Program.Declares` — the places that declare variables, with the first value each gives.

## Main results

* `ScriptCore.Program.declare_mem_variableEvents_iff` — the tracker meets these places.
* `ScriptCore.Program.Bound.find?_localVariables_eq_some_iff` — what it knows in the end.
* `ScriptCore.Program.localVariables_exact` — the facts of all variables of a program.
-/

namespace ScriptCore

namespace Program

/-- **How a program declares a variable, and with which first value**, if any. -/
inductive Declares (p : Program) : LocalId → Option BoundExpr → Prop
  /-- A name of a `local` statement has the expression at its place, if there is one. -/
  | atPlace {vars : List LocalId} {values : List BoundExpr} {pos : Position} {place : Nat}
    {id : LocalId} (hs : p.Contains (.stmt (.localVars vars values pos)))
    (hid : vars[place]? = some id) (hplace : ¬ CoveredAt values place) :
    Declares p id values[place]?
  /-- It has none at or behind a last expression with any number of values. -/
  | covered {vars : List LocalId} {values : List BoundExpr} {pos : Position} {place : Nat}
    {id : LocalId} (hs : p.Contains (.stmt (.localVars vars values pos)))
    (hid : vars[place]? = some id) (hplace : CoveredAt values place) : Declares p id none
  /-- The name of a local function has the function. -/
  | localFunction {id : LocalId} {f : Function Reference LocalId} {pos : Position}
    (hs : p.Contains (.stmt (.localFunction id f pos))) : Declares p id (some (.function f))
  /-- Parameters, the implicit one of a method among them, have none. -/
  | parameter {f : Function Reference LocalId} {id : LocalId} (hf : p.Contains (.expr (.function f)))
    (hid : id ∈ f.params) : Declares p id none
  /-- Loop variables have none. -/
  | numericFor {id : LocalId} {start limit : BoundExpr} {step : Option BoundExpr}
    {body : BoundBlock} {pos : Position}
    (hs : p.Contains (.stmt (.numericFor id start limit step body pos))) : Declares p id none
  | genericFor {vars : List LocalId} {values : List BoundExpr} {body : BoundBlock} {pos : Position}
    {id : LocalId} (hs : p.Contains (.stmt (.genericFor vars values body pos))) (hid : id ∈ vars) :
    Declares p id none

variable {p : Program} {id : LocalId} {init : Option BoundExpr}

/-- A declaration a statement makes itself declares its variable. -/
lemma declares_of_mem_declarations {s : BoundStmt} (hs : p.Contains (.stmt s))
    (h : (id, init) ∈ s.declarations) : p.Declares id init := by
  cases s with
  | localVars vars values pos =>
    obtain ⟨place, hplace⟩ := List.mem_iff_getElem?.1 h
    obtain ⟨hid, ⟨hcovered, rfl⟩ | ⟨hcovered, rfl⟩⟩ :=
      (getElem?_initializers_eq_some_iff place).1 hplace
    · exact .covered hs hid hcovered
    · exact .atPlace hs hid hcovered
  | localFunction var f pos =>
    cases List.mem_singleton.1 h
    exact .localFunction hs
  | numericFor var start limit step body pos =>
    cases List.mem_singleton.1 h
    exact .numericFor hs
  | genericFor vars values body pos =>
    obtain ⟨i, hi, heq⟩ := List.mem_map.1 h
    cases heq
    exact .genericFor hs hi
  | _ => exact absurd h List.not_mem_nil

/-- **The tracker meets the places that declare variables**, and no others. -/
lemma declare_mem_variableEvents_iff :
    VariableEvent.declare id init ∈ p.variableEvents ↔ p.Declares id init := by
  rw [variableEvents, List.mem_flatMap]
  constructor
  · rintro ⟨node, hnode, hmem⟩
    have hnode : p.Contains node := contains_iff.2 hnode
    cases node with
    | expr e =>
      cases e with
      | function f =>
        obtain ⟨i, hi, heq⟩ := List.mem_map.1 hmem
        cases heq
        exact .parameter hnode hi
      | _ => exact absurd hmem List.not_mem_nil
    | stmt s => exact declares_of_mem_declarations hnode (by simpa [Node.variableEvents] using hmem)
    | item i => exact absurd hmem List.not_mem_nil
    | block b => exact absurd hmem List.not_mem_nil
  · intro h
    -- a declaration of a statement is one of the events of the statement
    have hstmt : ∀ {s : BoundStmt} {init}, p.Contains (.stmt s) → (id, init) ∈ s.declarations →
        ∃ n ∈ (Node.block p.body).nodes, VariableEvent.declare id init ∈ n.variableEvents :=
      fun hs hmem => ⟨_, contains_iff.1 hs, List.mem_append_left _
        (List.mem_map_of_mem (f := fun d => VariableEvent.declare d.1 d.2) hmem)⟩
    cases h with
    | atPlace hs hid hplace =>
      exact hstmt hs (List.mem_of_getElem?
        ((getElem?_initializers_eq_some_iff _).2 ⟨hid, .inr ⟨hplace, rfl⟩⟩))
    | covered hs hid hplace =>
      exact hstmt hs (List.mem_of_getElem?
        ((getElem?_initializers_eq_some_iff _).2 ⟨hid, .inl ⟨hplace, rfl⟩⟩))
    | localFunction hs => exact hstmt hs (List.mem_singleton_self _)
    | parameter hf hid => exact ⟨_, contains_iff.1 hf, List.mem_map_of_mem hid⟩
    | numericFor hs => exact hstmt hs (List.mem_singleton_self _)
    | genericFor hs hid => exact hstmt hs (List.mem_map_of_mem hid)

/-- A program assigns to a local if it contains a statement with that target. -/
lemma write_mem_variableEvents_iff_contains : VariableEvent.write id ∈ p.variableEvents ↔
    ∃ s pos, p.Contains (.stmt s) ∧ s.AssignsTo (.name (.localVar id) pos) := by
  simp only [write_mem_variableEvents, Assigns, contains_iff]

/-- **What the tracker knows of a variable** in the end: the first value from its declaration, and
whether anything assigns it. -/
lemma Bound.find?_localVariables_eq_some_iff (hp : p.Bound) {x : Variable} :
    p.localVariables.find? id = some x ↔ p.Declares id x.init ∧
      (x.written = true ↔
        ∃ s pos, p.Contains (.stmt s) ∧ s.AssignsTo (.name (.localVar id) pos)) := by
  rw [localVariables, Variables.find?_foldl_record_eq_some_iff hp.variableEvents_declaredFirst
    hp.nodup_declared_variableEvents, declare_mem_variableEvents_iff,
    write_mem_variableEvents_iff_contains]

/-- The variables of a bound program are those that it declares. -/
lemma Bound.lt_size_iff (hp : p.Bound) : id < p.locals.size ↔ ∃ init, p.Declares id init := by
  rw [← hp.mem_declaredIn_iff, ← declared_variableEvents, List.mem_flatMap]
  constructor
  · rintro ⟨event, hevent, hid⟩
    cases event with
    | declare i init =>
      cases List.mem_singleton.1 hid
      exact ⟨init, declare_mem_variableEvents_iff.1 hevent⟩
    | write i => exact absurd hid List.not_mem_nil
  · rintro ⟨init, h⟩
    exact ⟨_, declare_mem_variableEvents_iff.2 h, List.mem_singleton_self _⟩

/-- The tracker has an entry for each variable that is declared. -/
lemma Bound.exists_find?_localVariables (hp : p.Bound) (h : p.Declares id init) :
    ∃ x, p.localVariables.find? id = some x ∧ x.init = init := by
  classical
  exact ⟨⟨init, decide (∃ s pos, p.Contains (.stmt s) ∧ s.AssignsTo (.name (.localVar id) pos))⟩,
    hp.find?_localVariables_eq_some_iff.2 ⟨h, decide_eq_true_iff⟩, rfl⟩

/-- A variable is declared with one first value only. -/
lemma Bound.declares_unique (hp : p.Bound) {init' : Option BoundExpr} (h : p.Declares id init)
    (h' : p.Declares id init') : init = init' := by
  obtain ⟨x, hx, rfl⟩ := hp.exists_find?_localVariables h
  obtain ⟨y, hy, rfl⟩ := hp.exists_find?_localVariables h'
  rw [Option.some.inj (hx.symm.trans hy)]

/-- **The facts of local variables are exact.** In the program of a source text, there is an entry
for each variable, and for nothing else. It says that the variable is written exactly if the program
contains, at any depth, a statement that assigns to it; and its first value is what the declaration
of the variable gives.

**Proof sketch.** Names are bound so that each variable is declared once and before all places that
see it. So no declaration overwrites what is known of a variable already, and every assignment finds
the entry. -/
theorem localVariables_exact {source : String} {p : Program} (hp : parseProgram source = .ok p) :
    (∀ id < p.locals.size, ∃ x, p.localVariables.find? id = some x ∧
      (x.written = true ↔
        ∃ s pos, p.Contains (.stmt s) ∧ s.AssignsTo (.name (.localVar id) pos)) ∧
      ∀ init, p.Declares id init ↔ init = x.init) ∧
    ∀ id, p.locals.size ≤ id → p.localVariables.find? id = none := by
  have hbound := bound_of_parseProgram hp
  refine ⟨fun id hid => ?_, fun id hid => ?_⟩
  · obtain ⟨init, hinit⟩ := hbound.lt_size_iff.1 hid
    obtain ⟨x, hx, rfl⟩ := hbound.exists_find?_localVariables hinit
    refine ⟨x, hx, (hbound.find?_localVariables_eq_some_iff.1 hx).2, fun init => ⟨fun h => ?_, ?_⟩⟩
    · exact hbound.declares_unique h hinit
    · rintro rfl
      exact hinit
  · cases hx : p.localVariables.find? id with
    | none => rfl
    | some x =>
      have hdeclared := (hbound.find?_localVariables_eq_some_iff.1 hx).1
      exact absurd (hbound.lt_size_iff.2 ⟨_, hdeclared⟩) (Nat.not_lt.2 hid)

/-- The program of `local a, b = x, f() function a:m(p) b = p end`. -/
def methodOfLocal : Program where
  body := .mk ⟨1, 1⟩ [
    .localVars [0, 1] [.name (.globalVar "x") ⟨1, 14⟩,
      .call (.name (.globalVar "f") ⟨1, 17⟩) [] false ⟨1, 18⟩] ⟨1, 1⟩,
    .functionDecl (.member (.name (.localVar 0) ⟨1, 30⟩) "m" ⟨1, 21⟩)
      (.mk [2, 3] false (.mk ⟨1, 37⟩ [.assign [.name (.localVar 1) ⟨1, 37⟩]
        [.name (.localVar 3) ⟨1, 41⟩] ⟨1, 37⟩]) ⟨1, 21⟩) ⟨1, 21⟩]
  locals := #[⟨"a", ⟨1, 7⟩, 0⟩, ⟨"b", ⟨1, 10⟩, 0⟩, ⟨"self", ⟨1, 21⟩, 1⟩, ⟨"p", ⟨1, 34⟩, 1⟩]

/-- The variable `a` has the value at its place and is not written, though a function is put into
what it holds; `b`, which a call covers, has none and is written inside of the method; the implicit
parameter of the method has none. -/
theorem localVariables_exact_methodOfLocal :
    parseProgram "local a, b = x, f() function a:m(p) b = p end" = .ok methodOfLocal ∧
    methodOfLocal.Declares 0 (some (.name (.globalVar "x") ⟨1, 14⟩)) ∧
    (¬ ∃ s pos, methodOfLocal.Contains (.stmt s) ∧ s.AssignsTo (.name (.localVar 0) pos)) ∧
    methodOfLocal.Declares 1 none ∧
    (∃ s pos, methodOfLocal.Contains (.stmt s) ∧ s.AssignsTo (.name (.localVar 1) pos)) ∧
    methodOfLocal.Declares 2 none ∧ methodOfLocal.localVariables.find? 4 = none := by
  have hparse :
      parseProgram "local a, b = x, f() function a:m(p) b = p end" = .ok methodOfLocal := by cbv
  obtain ⟨hentries, hnone⟩ := localVariables_exact hparse
  have ha : methodOfLocal.localVariables.find? 0 =
      some ⟨some (.name (.globalVar "x") ⟨1, 14⟩), false⟩ := by cbv
  have hb : methodOfLocal.localVariables.find? 1 = some ⟨none, true⟩ := by cbv
  have hself : methodOfLocal.localVariables.find? 2 = some ⟨none, false⟩ := by cbv
  obtain ⟨x, hx, hxwritten, hxinit⟩ := hentries 0 (by decide)
  obtain ⟨y, hy, hywritten, hyinit⟩ := hentries 1 (by decide)
  obtain ⟨z, hz, -, hzinit⟩ := hentries 2 (by decide)
  cases ha.symm.trans hx
  cases hb.symm.trans hy
  cases hself.symm.trans hz
  exact ⟨hparse, (hxinit _).2 rfl, fun h => Bool.false_ne_true (hxwritten.2 h), (hyinit _).2 rfl,
    hywritten.1 rfl, (hzinit _).2 rfl, hnone 4 (by decide)⟩

end Program

end ScriptCore
