import Mathlib
import ScriptCore.Proofs.Denotation
import ScriptCore.Proofs.LocalFacts

set_option relaxedAutoImplicit false
set_option autoImplicit false

/-!
# Following variables to their first values

The resolver follows a variable that keeps its first value to the expression that gives it, which
may be a variable again. Without a bound on how far it goes, this is a recursion that leaves the
tree. It ends because the numbers of the variables get smaller: an expression that initializes a
variable stands where only earlier declarations are visible, also if it has the name of the variable
itself. So no bound from the number of declarations on makes a difference.

## Main definitions

* `ScriptCore.Node.ContainsOutside` — what a tree contains outside of function literals.
* `ScriptCore.Facts.Unfolds` — the recursion without a bound, with the variables it meets.

## Main results

* `ScriptCore.Facts.Unfolds.unique`, `ScriptCore.Facts.resolveWithin_of_unfolds` — the recursion has
  at most one outcome, and the resolver has it as soon as its bound allows for the variables met.
* `ScriptCore.Program.Bound.exists_unfolds` — the recursion ends, with smaller and smaller numbers.
* `ScriptCore.Facts.unfolds_descending` — the resolver terminates on every program.
-/

namespace ScriptCore

/-! ## Outside of function literals -/

/-- What a tree contains without going into function literals: its root and the parts of what it
contains so, other than the bodies of function literals. -/
def Node.ContainsOutside {ρ β : Type} : Node ρ β → Node ρ β → Prop :=
  Relation.ReflTransGen fun n c => n.HasPart c ∧ ∀ f, n ≠ .expr (.function f)

namespace Program

variable {p : Program} {v : Visible}

/-- Outside of function literals, an expression consists of expressions and items, and what is
visible at the expression is visible there. -/
lemma mem_scopedNodes_of_containsOutside {e : BoundExpr} {c : Node Reference LocalId}
    (he : (v, .expr e) ∈ p.scopedNodes) (h : (Node.expr e).ContainsOutside c) :
    (v, c) ∈ p.scopedNodes ∧ ((∃ e, c = .expr e) ∨ ∃ i, c = .item i) := by
  induction h with
  | refl => exact ⟨he, .inl ⟨e, rfl⟩⟩
  | @tail n c _ hstep ih =>
    obtain ⟨hn, hkind⟩ := ih
    obtain ⟨hpart, hfunction⟩ := hstep
    have hmem : (v, c) ∈ n.children.map fun c => (v, c) :=
      List.mem_map_of_mem (Node.hasPart_iff.1 hpart)
    rcases hkind with ⟨e, rfl⟩ | ⟨i, rfl⟩
    · have hscoped : (Node.expr e).scoped p.locals v =
          (Node.expr e).children.map fun c => (v, c) := by
        cases e with
        | function f => exact absurd rfl (hfunction f)
        | _ => rfl
      rw [← hscoped] at hmem
      refine ⟨Inherited.mem_preorder_of_mem_parts _ hn hmem, ?_⟩
      cases hpart with
      | expr hpart =>
        cases hpart with
        | functionBody => exact absurd rfl (hfunction _)
        | tableItem h => exact .inr ⟨_, rfl⟩
        | _ => exact .inl ⟨_, rfl⟩
    · refine ⟨Inherited.mem_preorder_of_mem_parts _ hn hmem, ?_⟩
      cases hpart with
      | item hpart => cases hpart <;> exact .inl ⟨_, rfl⟩

/-- **A variable in the first value of another one was declared before that**, outside of function
literals. -/
lemma Bound.lt_of_containsOutside (hp : p.Bound) {id id' : LocalId} {e : BoundExpr} {pos : Position}
    (h : VariableEvent.declare id (some e) ∈ p.variableEvents)
    (he : (Node.expr e).ContainsOutside (.expr (.name (.localVar id') pos))) : id' < id := by
  rcases declare_mem_variableEvents.1 h with hinit | ⟨f, pos, rfl, -⟩
  · obtain ⟨v, hmem, hnewer⟩ := hp.visible_of_initializes hinit
    obtain ⟨hname, -⟩ := mem_scopedNodes_of_containsOutside hmem he
    obtain ⟨b, hb, rfl⟩ := ((hp.nodes _ hname).resolves _ _ rfl).exists_mem
    exact hnewer b hb
  · -- nothing is outside of a function literal but itself
    rcases Relation.ReflTransGen.cases_head he with heq | ⟨c, ⟨-, hfunction⟩, -⟩
    · cases heq
    · exact absurd rfl (hfunction f)

end Program

/-! ## The recursion -/

/-- Whether an expression may lead on to another one: names, elements under a fixed name and
parentheses. -/
def Expr.leadsOn : BoundExpr → Bool
  | name .. | member .. | group .. => true
  | _ => false

namespace Facts

/-- **How an expression is followed to the name it denotes**, with no bound: the variables that are
met, one after the other, and the name, which is empty if there is none. -/
inductive Unfolds (facts : Facts) : BoundExpr → List LocalId → Builtin → Prop
  /-- A variable that keeps its first value is followed to it. -/
  | kept {id : LocalId} {pos : Position} {e : BoundExpr} {chain : List LocalId} {b : Builtin}
    (hinit : facts.locals.stableInit? id = some e) (h : Unfolds facts e chain b) :
    Unfolds facts (.name (.localVar id) pos) (id :: chain) b
  /-- Any other variable denotes nothing. -/
  | notKept {id : LocalId} {pos : Position} (hinit : facts.locals.stableInit? id = none) :
    Unfolds facts (.name (.localVar id) pos) [id] .empty
  /-- A global that nothing replaces denotes itself. -/
  | unchanged {name : String} {pos : Position}
    (hstate : facts.globals.stateOf name = some .unchanged) :
    Unfolds facts (.name (.globalVar name) pos) [] ⟨none, name⟩
  /-- Any other global denotes nothing. -/
  | changed {name : String} {pos : Position}
    (hstate : facts.globals.stateOf name ≠ some .unchanged) :
    Unfolds facts (.name (.globalVar name) pos) [] .empty
  | member {object : BoundExpr} {name : String} {pos : Position} {chain : List LocalId}
    {b : Builtin} (h : Unfolds facts object chain b) :
    Unfolds facts (.member object name pos) chain (b.member name)
  | group {inner : BoundExpr} {pos : Position} {chain : List LocalId} {b : Builtin}
    (h : Unfolds facts inner chain b) : Unfolds facts (.group inner pos) chain b
  /-- All else denotes nothing. -/
  | other {e : BoundExpr} (he : e.leadsOn = false) : Unfolds facts e [] .empty

variable {facts : Facts} {e : BoundExpr} {chain : List LocalId} {b : Builtin}

/-- **The recursion has at most one outcome.** -/
theorem Unfolds.unique (h : facts.Unfolds e chain b) {chain' : List LocalId} {b' : Builtin}
    (h' : facts.Unfolds e chain' b') : chain' = chain ∧ b' = b := by
  induction h generalizing chain' b' with
  | kept hinit _ ih =>
    cases h' with
    | kept hinit' h' =>
      cases hinit.symm.trans hinit'
      obtain ⟨rfl, rfl⟩ := ih h'
      exact ⟨rfl, rfl⟩
    | notKept hinit' => cases hinit.symm.trans hinit'
    | other he => cases he
  | notKept hinit =>
    cases h' with
    | kept hinit' h' => cases hinit.symm.trans hinit'
    | notKept => exact ⟨rfl, rfl⟩
    | other he => cases he
  | unchanged hstate =>
    cases h' with
    | unchanged => exact ⟨rfl, rfl⟩
    | changed hstate' => exact absurd hstate hstate'
    | other he => cases he
  | changed hstate =>
    cases h' with
    | unchanged hstate' => exact absurd hstate' hstate
    | changed => exact ⟨rfl, rfl⟩
    | other he => cases he
  | member _ ih =>
    cases h' with
    | member h' =>
      obtain ⟨rfl, rfl⟩ := ih h'
      exact ⟨rfl, rfl⟩
    | other he => cases he
  | group _ ih =>
    cases h' with
    | group h' => exact ih h'
    | other he => cases he
  | other he =>
    cases h' with
    | other => exact ⟨rfl, rfl⟩
    | _ => cases he

/-- **The resolver has the outcome of the recursion** if it may follow as many variables as are
met. -/
theorem resolveWithin_of_unfolds (h : facts.Unfolds e chain b) :
    ∀ jumps, chain.length ≤ jumps → facts.resolveWithin jumps e = b := by
  induction h with
  | kept hinit _ ih =>
    intro jumps hjumps
    obtain ⟨jumps, rfl⟩ := Nat.exists_eq_add_of_lt (Nat.lt_of_lt_of_le (Nat.succ_pos _) hjumps)
    rw [Nat.zero_add, resolveWithin_local _ _ hinit]
    exact ih jumps (by simpa using hjumps)
  | notKept hinit => exact fun jumps _ => resolveWithin_local_of_none _ _ hinit _
  | unchanged hstate => exact fun jumps _ => by rw [resolveWithin_global, if_pos hstate]
  | changed hstate => exact fun jumps _ => by rw [resolveWithin_global, if_neg hstate]
  | member _ ih =>
    intro jumps hjumps
    rw [resolveWithin_member, ih jumps hjumps]
  | group _ ih =>
    intro jumps hjumps
    rw [resolveWithin_group, ih jumps hjumps]
  | @other e he =>
    intro jumps _
    cases e with
    | name | member | group => cases he
    | _ => cases jumps <;> rfl

end Facts

/-! ## Termination -/

namespace Program

variable {p : Program}

/-- **The recursion ends** where only variables below a bound are visible, and the variables it meets
have smaller and smaller numbers below the bound.

**Proof sketch.** By induction on a bound for what is visible at the place, and for each on the
expression. A variable that is met is visible; its first value stands where only variables with
smaller numbers are. -/
theorem Bound.exists_unfolds (hp : p.Bound) (globals : Globals) (bound : Nat) :
    ∀ (v : Visible) (e : BoundExpr), (v, .expr e) ∈ p.scopedNodes → (∀ x ∈ v, x.2 < bound) →
      ∃ chain b, Facts.Unfolds ⟨globals, p.localVariables, p.locals.size⟩ e chain b ∧
        chain.Pairwise (· > ·) ∧ ∀ id ∈ chain, id < bound := by
  induction bound using Nat.strong_induction_on with
  | _ bound ih =>
    intro v e
    have hpart : ∀ {e e'}, (v, Node.expr e) ∈ p.scopedNodes →
        (v, .expr e') ∈ (Node.expr e).scoped p.locals v → (v, Node.expr e') ∈ p.scopedNodes :=
      fun hmem hmem' => Inherited.mem_preorder_of_mem_parts _ hmem hmem'
    let facts : Facts := ⟨globals, p.localVariables, p.locals.size⟩
    induction e using Facts.resolveWith.induct facts with
    | case1 id pos =>
      intro hmem hv
      obtain ⟨x, hx, rfl⟩ := ((hp.nodes _ hmem).resolves _ pos rfl).exists_mem
      have hlt := hv x hx
      cases hinit : facts.locals.stableInit? x.2 with
      | none =>
        exact ⟨_, _, .notKept hinit, List.pairwise_singleton _ _, by simpa using hlt⟩
      | some e =>
        -- the facts about variables are the same whatever is replaceable
        have hstable : (Facts.ofProgram [] p).locals.stableInit? x.2 = some e := hinit
        obtain ⟨hinit' | ⟨f, -, rfl, -⟩, -⟩ := (Facts.stableInit?_eq_some_iff hp).1 hstable
        · obtain ⟨v', hmem', hv'⟩ := hp.visible_of_initializes hinit'
          obtain ⟨chain, b, h, hchain, hbelow⟩ := ih x.2 hlt v' e hmem' hv'
          refine ⟨_, _, .kept hinit h, List.pairwise_cons.2 ⟨hbelow, hchain⟩, fun id hid => ?_⟩
          rcases List.mem_cons.1 hid with rfl | hid
          · exact hlt
          · exact (hbelow id hid).trans hlt
        · -- a local function denotes nothing
          exact ⟨_, _, .kept hinit (.other rfl), List.pairwise_singleton _ _, by simpa using hlt⟩
    | case2 name pos hstate => exact fun _ _ => ⟨_, _, .unchanged hstate, .nil, nofun⟩
    | case3 name pos hstate => exact fun _ _ => ⟨_, _, .changed hstate, .nil, nofun⟩
    | case4 object name pos ihe =>
      intro hmem hv
      obtain ⟨chain, b, h, hchain⟩ := ihe (hpart hmem List.mem_cons_self) hv
      exact ⟨_, _, .member h, hchain⟩
    | case5 inner pos ihe =>
      intro hmem hv
      obtain ⟨chain, b, h, hchain⟩ := ihe (hpart hmem List.mem_cons_self) hv
      exact ⟨_, _, .group h, hchain⟩
    | case6 e hlocal hglobal hmember hgroup =>
      refine fun _ _ => ⟨_, _, .other ?_, .nil, nofun⟩
      cases e with
      | name ref pos =>
        cases ref with
        | localVar id => exact (hlocal id pos rfl).elim
        | globalVar name => exact (hglobal name pos rfl).elim
      | member object name pos => exact (hmember object name pos rfl).elim
      | group inner pos => exact (hgroup inner pos rfl).elim
      | _ => rfl

end Program

/-- Numbers that get smaller and smaller from below a bound are no more than the bound. -/
lemma length_le_of_descending {l : List Nat} {bound : Nat} (h : l.Pairwise (· > ·))
    (hbound : ∀ i ∈ l, i < bound) : l.length ≤ bound := by
  have hnodup : l.Nodup := h.imp fun hgt => hgt.ne'
  have hsub : l ⊆ List.range bound := fun i hi => List.mem_range.2 (hbound i hi)
  simpa using (hnodup.subperm hsub).length_le

/-- **The resolver terminates on every program.** In the program of a source text, a variable that
the first value of another one contains, outside of function literals, has a smaller number. So for
every expression of the program, whatever is known of the globals, the recursion without a bound
ends, in one way: the variables it meets have smaller and smaller numbers and are no more than the
declarations of the program; and the resolver has the outcome of the recursion, with the bound it
takes, and with every other one that is not below the number of variables met. -/
theorem Facts.unfolds_descending {source : String} {p : Program} (hp : parseProgram source = .ok p)
    (globals : Globals) :
    let facts : Facts := ⟨globals, p.localVariables, p.locals.size⟩
    (∀ id x e, facts.locals.find? id = some x → x.init = some e → ∀ id' pos,
      (Node.expr e).ContainsOutside (.expr (.name (.localVar id') pos)) → id' < id) ∧
    ∀ e, p.Contains (.expr e) → ∃ chain b, facts.Unfolds e chain b ∧
      (∀ chain' b', facts.Unfolds e chain' b' → chain' = chain ∧ b' = b) ∧
      chain.Pairwise (· > ·) ∧ chain.length ≤ p.locals.size ∧ facts.resolve e = b ∧
      ∀ jumps, chain.length ≤ jumps → facts.resolveWithin jumps e = b := by
  intro facts
  have hbound := bound_of_parseProgram hp
  refine ⟨fun id x e hx he id' pos hname => ?_, fun e he => ?_⟩
  · have hdeclares := (hbound.find?_localVariables_eq_some_iff.1 hx).1
    rw [he] at hdeclares
    exact hbound.lt_of_containsOutside (Program.declare_mem_variableEvents_iff.2 hdeclares) hname
  · have hmem := Program.contains_iff.1 he
    rw [← p.map_snd_scopedNodes] at hmem
    obtain ⟨⟨v, n⟩, hmem, heq⟩ := List.mem_map.1 hmem
    change n = .expr e at heq
    subst heq
    obtain ⟨chain, b, h, hchain, hbelow⟩ :=
      hbound.exists_unfolds globals p.locals.size v e hmem (hbound.lt_size hmem)
    have hlength : chain.length ≤ p.locals.size := length_le_of_descending hchain hbelow
    exact ⟨chain, b, h, fun _ _ h' => h.unique h', hchain, hlength,
      resolveWithin_of_unfolds h _ hlength, resolveWithin_of_unfolds h⟩

/-- The program of `local m = math local m, n = m, m return function() return (m).floor end`. -/
def redeclared : Program where
  body := .mk ⟨1, 1⟩ [
    .localVars [0] [.name (.globalVar "math") ⟨1, 11⟩] ⟨1, 1⟩,
    .localVars [1, 2] [.name (.localVar 0) ⟨1, 29⟩, .name (.localVar 0) ⟨1, 32⟩] ⟨1, 16⟩,
    .ret [.function (.mk [] false (.mk ⟨1, 52⟩ [
      .ret [.member (.group (.name (.localVar 1) ⟨1, 60⟩) ⟨1, 59⟩) "floor" ⟨1, 62⟩] ⟨1, 52⟩])
        ⟨1, 41⟩)] ⟨1, 34⟩]
  locals := #[⟨"m", ⟨1, 7⟩, 0⟩, ⟨"m", ⟨1, 22⟩, 0⟩, ⟨"n", ⟨1, 25⟩, 0⟩]

/-- The expression `(m).floor` of that program, inside of the function literal. -/
def redeclaredFloor : BoundExpr :=
  .member (.group (.name (.localVar 1) ⟨1, 60⟩) ⟨1, 59⟩) "floor" ⟨1, 62⟩

/-- The facts of that program when the host replaces nothing. -/
def redeclaredFacts : Facts :=
  ⟨(Globals.withReplaceable []).track redeclared, redeclared.localVariables, 3⟩

/-- The second `m` is followed to the first one, and that to `math`. With fewer than two steps the
name is not found, and with two or more it is `math.floor`. -/
theorem unfolds_descending_redeclared :
    parseProgram "local m = math local m, n = m, m return function() return (m).floor end" =
      .ok redeclared ∧
    redeclared.Contains (.expr redeclaredFloor) ∧
    redeclaredFacts.Unfolds redeclaredFloor [1, 0] ⟨some "math", "floor"⟩ ∧
    [1, 0].Pairwise (· > ·) ∧ redeclaredFacts.resolveWithin 1 redeclaredFloor = .empty ∧
    redeclaredFacts.resolve redeclaredFloor = ⟨some "math", "floor"⟩ ∧
    ∀ jumps, 2 ≤ jumps → redeclaredFacts.resolveWithin jumps redeclaredFloor =
      ⟨some "math", "floor"⟩ := by
  have hparse : parseProgram
      "local m = math local m, n = m, m return function() return (m).floor end" =
      .ok redeclared := by cbv
  have hcontains : redeclared.Contains (.expr redeclaredFloor) := by
    refine .head (.statement (List.mem_of_getElem? (i := 2) rfl)) ?_
    refine .head (.stmt (.returned (List.mem_singleton_self _))) ?_
    refine .head (.expr .functionBody) ?_
    refine .head (.statement (List.mem_singleton_self _)) ?_
    exact .head (.stmt (.returned (List.mem_singleton_self _))) .refl
  have hunfolds : redeclaredFacts.Unfolds redeclaredFloor [1, 0] ⟨some "math", "floor"⟩ := by
    have hsecond : redeclared.localVariables.stableInit? 1 =
        some (.name (.localVar 0) ⟨1, 29⟩) := by cbv
    have hfirst : redeclared.localVariables.stableInit? 0 =
        some (.name (.globalVar "math") ⟨1, 11⟩) := by cbv
    have hstate : redeclaredFacts.globals.stateOf "math" = some .unchanged := by cbv
    exact .member (.group (.kept hsecond (.kept hfirst (.unchanged hstate))))
  obtain ⟨chain, b, -, hunique, hchain, -, hresolve, hjumps⟩ :=
    (Facts.unfolds_descending hparse redeclaredFacts.globals).2 _ hcontains
  obtain ⟨rfl, rfl⟩ := hunique _ _ hunfolds
  exact ⟨hparse, hcontains, hunfolds, hchain, by cbv, hresolve, hjumps⟩

end ScriptCore
