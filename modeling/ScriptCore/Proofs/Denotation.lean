import ScriptCore.Proofs.Emission
import ScriptCore.Proofs.ParsedNames
import ScriptCore.Proofs.Tracking

set_option relaxedAutoImplicit false
set_option autoImplicit false

/-!
# Which calls take a fast path

A callee denotes a library function if it leads to its name by rules that speak of the tree alone:
parentheses are dropped, a variable that keeps its first value stands for it, and the way ends at a
global nothing replaces, or at one member of such a global. The resolver follows the same way with
a bound on the number of variables it passes. A first value refers to earlier declarations only, so
the bound is never reached, and the resolver finds exactly what the rules give.

## Main definitions

* `ScriptCore.Denotes` — the name an expression denotes, by rules on the tree.
* `ScriptCore.Program.TakesFastPath` — when a call takes the fast path of a function.

## Main results

* `ScriptCore.Facts.denotes_of_resolveWithin`, `ScriptCore.Facts.resolveWithin_of_denotes` — the
  resolver finds what the rules give, and nothing else.
* `ScriptCore.Compiler.compile_fast_iff` — the calls of a compiled text that take a fast path.
-/

namespace ScriptCore

/-! ## The rules -/

/-- **The name an expression of a program denotes**, when the host may replace the given globals. -/
inductive Denotes (p : Program) (replaceable : List String) : BoundExpr → Builtin → Prop
  /-- A global that neither the host nor the program replaces denotes itself. -/
  | global {name : String} {pos : Position} (hhost : name ≠ "_G" ∧ name ∉ replaceable)
    (hprogram : ¬ p.Assigns (.globalVar name)) :
    Denotes p replaceable (.name (.globalVar name) pos) ⟨none, name⟩
  /-- A member of an expression that denotes a global. -/
  | member {object : BoundExpr} {library name : String} {pos : Position}
    (h : Denotes p replaceable object ⟨none, library⟩) :
    Denotes p replaceable (.member object name pos) ⟨some library, name⟩
  /-- Parentheses are dropped. -/
  | group {inner : BoundExpr} {pos : Position} {b : Builtin} (h : Denotes p replaceable inner b) :
    Denotes p replaceable (.group inner pos) b
  /-- A variable that nothing assigns stands for the expression that initializes it. -/
  | firstValue {id : LocalId} {pos : Position} {e : BoundExpr} {b : Builtin}
    (hinit : p.Initializes id e) (hkept : ¬ p.Assigns (.localVar id))
    (h : Denotes p replaceable e b) : Denotes p replaceable (.name (.localVar id) pos) b

/-- **When a call of a program takes the fast path of a function**: fast paths are on, the call is
not a method call, and its callee denotes a name of the function. -/
def Program.TakesFastPath (p : Program) (o : CompileOptions) (k : Call) (f : FastFunction) : Prop :=
  1 ≤ o.optimizationLevel ∧ k.isMethod = false ∧
    ∃ b, Denotes p o.mutableGlobals k.callee b ∧ b.function? o = some f

/-! ## The resolver -/

/-- A member that is not empty is one of a global that is not. -/
lemma Builtin.of_member_not_empty {b : Builtin} {name : String}
    (h : (b.member name).isEmpty = false) :
    b = ⟨none, b.method⟩ ∧ b.isEmpty = false ∧ b.member name = ⟨some b.method, name⟩ := by
  unfold member at h ⊢
  split at h
  · rename_i hb
    obtain ⟨object, method⟩ := b
    obtain ⟨hobject, hempty⟩ := hb
    change object = none at hobject
    subst hobject
    have hempty : (⟨none, method⟩ : Builtin).isEmpty = false := by simpa using hempty
    refine ⟨rfl, hempty, ?_⟩
    rw [if_pos ⟨rfl, by simpa using hempty⟩]
  · cases h

namespace Facts

section Equations

variable (facts : Facts) (jumps : Nat)

lemma resolveWithin_global (name : String) (pos : Position) :
    facts.resolveWithin jumps (.name (.globalVar name) pos) =
      if facts.globals.stateOf name = some .unchanged then ⟨none, name⟩ else .empty := by
  cases jumps <;> rfl

lemma resolveWithin_member (object : BoundExpr) (name : String) (pos : Position) :
    facts.resolveWithin jumps (.member object name pos) =
      (facts.resolveWithin jumps object).member name := by
  cases jumps <;> rfl

lemma resolveWithin_group (inner : BoundExpr) (pos : Position) :
    facts.resolveWithin jumps (.group inner pos) = facts.resolveWithin jumps inner := by
  cases jumps <;> rfl

lemma resolveWithin_local {id : LocalId} {e : BoundExpr} (h : facts.locals.stableInit? id = some e)
    (pos : Position) :
    facts.resolveWithin (jumps + 1) (.name (.localVar id) pos) = facts.resolveWithin jumps e := by
  simp only [resolveWithin, resolveWith, h]

lemma resolveWithin_local_of_none {id : LocalId} (h : facts.locals.stableInit? id = none)
    (pos : Position) : facts.resolveWithin jumps (.name (.localVar id) pos) = .empty := by
  cases jumps with
  | zero => rfl
  | succ jumps => simp only [resolveWithin, resolveWith, h]

end Equations

variable {p : Program} {replaceable : List String}

/-- A name that is found is denoted, if that holds of the names of variables. -/
lemma denotes_of_resolveWith {ofLocal : LocalId → Builtin}
    (hlocal : ∀ id pos, (ofLocal id).isEmpty = false →
      Denotes p replaceable (.name (.localVar id) pos) (ofLocal id)) (e : BoundExpr) :
    ((ofProgram replaceable p).resolveWith ofLocal e).isEmpty = false →
      Denotes p replaceable e ((ofProgram replaceable p).resolveWith ofLocal e) := by
  fun_induction resolveWith (ofProgram replaceable p) ofLocal e with
  | case1 id pos => exact hlocal id pos
  | case2 name pos hstate =>
    intro _
    obtain ⟨-, hhost, hreplaceable, hprogram⟩ := stateOf_eq_unchanged_iff.1 hstate
    exact .global ⟨by simpa [Globals.alwaysReplaceable] using hhost, hreplaceable⟩ hprogram
  | case3 name pos hstate => exact nofun
  | case4 object name pos ih =>
    intro h
    obtain ⟨hobject, hnonempty, hmember⟩ := Builtin.of_member_not_empty h
    rw [hmember]
    exact .member (hobject ▸ ih hnonempty)
  | case5 inner pos ih => exact fun h => .group (ih h)
  | case6 e => exact nofun

/-- **A name that is found is denoted**, however many variables are followed. -/
theorem denotes_of_resolveWithin (hp : p.Bound) (jumps : Nat) :
    ∀ e : BoundExpr, ((ofProgram replaceable p).resolveWithin jumps e).isEmpty = false →
      Denotes p replaceable e ((ofProgram replaceable p).resolveWithin jumps e) := by
  induction jumps with
  | zero => exact denotes_of_resolveWith nofun
  | succ jumps ih =>
    refine denotes_of_resolveWith fun id pos h => ?_
    split at h
    · rename_i e hinit
      obtain ⟨hinit | ⟨f, -, rfl, -⟩, hkept⟩ := (stableInit?_eq_some_iff hp).1 hinit
      · exact .firstValue hinit hkept (ih e h)
      · -- a local function denotes nothing
        cases jumps <;> cases h
    · cases h

/-- **A name that is denoted is found**, if more variables may be followed than have been declared
before the place.

**Proof sketch.** By induction on the rules. The first value of a variable stands in the statement
that declares it, where only variables with smaller numbers are visible. -/
theorem resolveWithin_of_denotes (hp : p.Bound)
    (hnames : ∀ name pos, Node.expr (.name (.globalVar name) pos) ∈ (Node.block p.body).nodes →
      name ≠ "") {e : BoundExpr} {b : Builtin} (h : Denotes p replaceable e b) :
    ∀ (v : Visible) (jumps : Nat), (v, .expr e) ∈ p.scopedNodes → (∀ x ∈ v, x.2 < jumps) →
      (ofProgram replaceable p).resolveWithin jumps e = b ∧ (b.object = none → b.method ≠ "") := by
  have hpart : ∀ {v e e'}, (v, Node.expr e) ∈ p.scopedNodes →
      (v, .expr e') ∈ (Node.expr e).scoped p.locals v → (v, Node.expr e') ∈ p.scopedNodes :=
    fun hmem hmem' => Inherited.mem_preorder_of_mem_parts _ hmem hmem'
  induction h with
  | @global name pos hhost hprogram =>
    intro v jumps hmem _
    have hnode : Node.expr (.name (.globalVar name) pos) ∈ (Node.block p.body).nodes :=
      p.map_snd_scopedNodes ▸ List.mem_map_of_mem hmem
    have hstate := stateOf_eq_unchanged_iff.2 ⟨⟨pos, hnode⟩,
      by simpa [Globals.alwaysReplaceable] using hhost.1, hhost.2, hprogram⟩
    rw [resolveWithin_global, if_pos hstate]
    exact ⟨rfl, fun _ => hnames name pos hnode⟩
  | @member object library name pos h ih =>
    intro v jumps hmem hv
    obtain ⟨hobject, hlibrary⟩ := ih v jumps (hpart hmem List.mem_cons_self) hv
    rw [resolveWithin_member, hobject]
    have hlibrary : (⟨none, library⟩ : Builtin).isEmpty = false := by
      simpa [Builtin.isEmpty] using hlibrary
    exact ⟨if_pos ⟨rfl, by simp [hlibrary]⟩, nofun⟩
  | group h ih =>
    intro v jumps hmem hv
    rw [resolveWithin_group]
    exact ih v jumps (hpart hmem List.mem_cons_self) hv
  | @firstValue id pos e b hinit hkept h ih =>
    intro v jumps hmem hv
    obtain ⟨x, hx, hid⟩ := ((hp.nodes _ hmem).resolves _ pos rfl).exists_mem
    have hlt : id < jumps := hid ▸ hv x hx
    obtain ⟨jumps, rfl⟩ := Nat.exists_eq_succ_of_ne_zero (Nat.ne_zero_of_lt hlt)
    rw [resolveWithin_local _ _ ((stableInit?_eq_some_iff hp).2 ⟨.inl hinit, hkept⟩)]
    -- only earlier declarations are visible in the statement
    obtain ⟨v', he, hnewer⟩ := hp.visible_of_initializes hinit
    exact ih v' jumps he fun y hy => lt_of_lt_of_le (hnewer y hy) (Nat.le_of_lt_succ hlt)

/-- **The resolver finds the name of a function** for a callee if the callee denotes one. -/
theorem function?_resolve_eq_some_iff {source : String} (hsource : parseProgram source = .ok p)
    {o : CompileOptions} {e : BoundExpr} (he : .expr e ∈ (Node.block p.body).nodes)
    {f : FastFunction} :
    ((ofProgram o.mutableGlobals p).resolve e).function? o = some f ↔
      ∃ b, Denotes p o.mutableGlobals e b ∧ b.function? o = some f := by
  have hp : p.Bound := bound_of_parseProgram hsource
  constructor
  · intro h
    refine ⟨_, denotes_of_resolveWithin hp _ e ?_, h⟩
    by_contra hempty
    rw [Builtin.function?, resolve, if_pos (by simpa using hempty)] at h
    cases h
  · rintro ⟨b, hb, hf⟩
    rw [← p.map_snd_scopedNodes] at he
    obtain ⟨⟨v, n⟩, hmem, heq⟩ := List.mem_map.1 he
    change n = .expr e at heq
    subst heq
    have hresolve := (resolveWithin_of_denotes hp
      (fun name pos hname => Program.globalName_ne_empty hsource hname) hb v _ hmem
      (hp.lt_size hmem)).1
    rw [resolve]
    exact hresolve.symm ▸ hf

end Facts

/-! ## Compiled calls -/

namespace PlacedCall

/-- The fast path of a call. -/
lemma lowering_eq_fast_iff {facts : Facts} {o : CompileOptions} {k : PlacedCall}
    {f : FastFunction} :
    k.lowering facts o = .fast f ↔ 1 ≤ o.optimizationLevel ∧ k.call.isMethod = false ∧
      (facts.resolve k.call.callee).function? o = some f := by
  have hlevel : o.fastCalls = true ↔ 1 ≤ o.optimizationLevel := by
    rw [CompileOptions.fastCalls, decide_eq_true_iff]
  have hoptions : (Compiler.new o).options = o := rfl
  rw [lowering, Compiler.loweringFor, hoptions, ← hlevel]
  cases k.call.isMethod <;> cases o.fastCalls <;>
    cases (facts.resolve k.call.callee).function? o <;> simp

end PlacedCall

namespace Compiler

/-- **The calls that take a fast path.** The calls of a compiled text are emitted in postorder, one
site for each, and a call takes the fast path of a function exactly if the rules on the tree say
so.

**Proof sketch.** The unit of the text is that of its placed calls, and what the resolver finds for
a callee is what the callee denotes. -/
theorem compile_fast_iff {source : String} {p : Program} {c : Compiler} {u : CompiledUnit}
    (hp : parseProgram source = .ok p) (hu : ((compile source).outcome c).1 = .ok u) :
    ((Node.block p.body).postorder.filterMap Node.call?).Perm
        ((Node.block p.body).nodes.filterMap Node.call?) ∧
      List.Forall₂ (fun k site => site.line = k.pos.line ∧
          ∀ f, site.lowering = .fast f ↔ p.TakesFastPath c.options k f)
        ((Node.block p.body).postorder.filterMap Node.call?) u.callSites.toList := by
  refine ⟨(Node.block p.body).postorder_perm_nodes.filterMap _, ?_⟩
  have hunit : u = p.unit c.options := by
    rw [compile_outcome, hp] at hu
    dsimp only at hu
    split at hu
    · cases hu
    · exact (Except.ok.inj hu).symm
  rw [hunit, ← Program.map_call_emitted, Program.unit, List.forall₂_map_left_iff]
  show List.Forall₂ _ _ (p.emitted.map _)
  rw [List.forall₂_map_right_iff]
  refine List.forall₂_same.2 fun k hk => ⟨rfl, fun f => ?_⟩
  show k.lowering _ _ = .fast f ↔ _
  have hcallee : .expr k.call.callee ∈ (Node.block p.body).nodes := by
    have hcall : k.call ∈ (Node.block p.body).postorder.filterMap Node.call? :=
      p.map_call_emitted ▸ List.mem_map_of_mem hk
    obtain ⟨n, hn, hcall⟩ := List.mem_filterMap.1 hcall
    have hn := (Node.block p.body).postorder_perm_nodes.subset hn
    rw [Node.call?_eq_some_iff.1 hcall] at hn
    exact Node.mem_nodes_of_mem_children hn List.mem_cons_self
  rw [PlacedCall.lowering_eq_fast_iff, Facts.function?_resolve_eq_some_iff hp hcallee]
  rfl

/-- The program of `local m = math m.sqrt()`. -/
def aliased : Program where
  body := .mk ⟨1, 1⟩ [
    .localVars [0] [.name (.globalVar "math") ⟨1, 11⟩] ⟨1, 1⟩,
    .expr (.call (.member (.name (.localVar 0) ⟨1, 16⟩) "sqrt" ⟨1, 17⟩) [] false ⟨1, 22⟩)]
  locals := #[⟨"m", ⟨1, 7⟩, 0⟩]

/-- The unit of `local m = math m.sqrt()`. -/
def aliasedUnit : CompiledUnit where
  bytecode := #[957939712, 922747137, 905969920]
  callSites := #[⟨1, ⟨some "math", "sqrt"⟩, .fast ⟨25, "MathSqrt", some "math", "sqrt"⟩⟩]

theorem compile_fast_aliased :
    parseProgram "local m = math m.sqrt()" = .ok aliased ∧
      ((compile "local m = math m.sqrt()").outcome (new {})).1 = .ok aliasedUnit ∧
      ((Node.block aliased.body).postorder.filterMap Node.call?).Perm
        ((Node.block aliased.body).nodes.filterMap Node.call?) ∧
      List.Forall₂ (fun k site => site.line = k.pos.line ∧
          ∀ f, site.lowering = .fast f ↔ aliased.TakesFastPath {} k f)
        ((Node.block aliased.body).postorder.filterMap Node.call?)
        aliasedUnit.callSites.toList := by
  have hparse : parseProgram "local m = math m.sqrt()" = .ok aliased := by cbv
  have hcompile : ((compile "local m = math m.sqrt()").outcome (new {})).1 = .ok aliasedUnit := by
    cbv
  exact ⟨hparse, hcompile, compile_fast_iff hparse hcompile⟩

end Compiler

end ScriptCore
