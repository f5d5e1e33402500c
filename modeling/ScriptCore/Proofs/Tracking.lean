import Mathlib
import ScriptCore.Builtin.Callee
import ScriptCore.Proofs.Binding

set_option relaxedAutoImplicit false
set_option autoImplicit false

/-!
# What the trackers know

The trackers of globals and of local variables read the nodes of a program in order and change
what they know on the way. What they know in the end is said here of the program alone: which
names it assigns, and which expression gives a variable its first value.

For the variables this needs that declarations come first: a walk over the nodes of a well-bound
program meets the declaration of a variable before any place that sees it, and meets it once.

## Main definitions

* `ScriptCore.Program.Assigns`, `ScriptCore.Program.Initializes` — assigned names and first values.
* `ScriptCore.DeclaredFirst` — a list whose elements use only what earlier ones declare.

## Main results

* `ScriptCore.Facts.stateOf_eq_unchanged_iff` — the globals nothing replaces.
* `ScriptCore.Inherited.preorder_declaredFirst` — declarations come first.
* `ScriptCore.Facts.stableInit?_eq_some_iff` — the variables that keep their first value.
-/

namespace ScriptCore

/-! ## Assigned names and first values -/

/-- The expressions a statement assigns to: the targets of an assignment, of a compound assignment
and of a function statement. -/
inductive Stmt.AssignsTo : BoundStmt → BoundExpr → Prop
  | assign {targets values : List BoundExpr} {pos : Position} {target : BoundExpr}
    (h : target ∈ targets) : AssignsTo (.assign targets values pos) target
  | compound {op : BinaryOp} {target value : BoundExpr} {pos : Position} :
    AssignsTo (.compound op target value pos) target
  | functionDecl {target : BoundExpr} {f : Function Reference LocalId} {pos : Position} :
    AssignsTo (.functionDecl target f pos) target

/-- Whether the value at a place of a `local` statement comes from a last expression that may have
any number of values. -/
def CoveredAt (values : List BoundExpr) (place : Nat) : Prop :=
  ∃ front last, values = front ++ [last] ∧ last.isMultiValue ∧ front.length ≤ place

namespace Program

/-- Whether a statement somewhere in a program assigns to a bare name. -/
def Assigns (p : Program) (ref : Reference) : Prop :=
  ∃ s pos, Node.stmt s ∈ (Node.block p.body).nodes ∧ s.AssignsTo (.name ref pos)

/-- Whether a `local` statement of a program gives a variable the value of one expression, the one
at its place. -/
def Initializes (p : Program) (id : LocalId) (e : BoundExpr) : Prop :=
  ∃ vars values pos place, Node.stmt (.localVars vars values pos) ∈ (Node.block p.body).nodes ∧
    vars[place]? = some id ∧ values[place]? = some e ∧ ¬ CoveredAt values place

end Program

lemma Stmt.assignsTo_iff_mem_targets {s : BoundStmt} {e : BoundExpr} :
    s.AssignsTo e ↔ e ∈ s.targets := by
  constructor
  · intro h
    cases h with
    | assign h => exact h
    | compound => exact List.mem_singleton_self _
    | functionDecl => exact List.mem_singleton_self _
  · intro h
    cases s with
    | assign targets values pos => exact .assign h
    | compound op target value pos => exact List.mem_singleton.1 h ▸ .compound
    | functionDecl target f pos => exact List.mem_singleton.1 h ▸ .functionDecl
    | _ => exact absurd h List.not_mem_nil

/-! ## Globals -/

namespace Globals

variable {g : Globals} {name n : String}

lemma stateOf_set (state : GlobalState) :
    (g.set name state).stateOf n = if n = name then some state else g.stateOf n := by
  rw [stateOf, set, List.lookup_cons]
  by_cases h : n = name
  · rw [if_pos h, h, beq_self_eq_true]
  · rw [if_neg h, beq_false_of_ne h]; rfl

/-- The replaceable names are those given and those every host can replace. -/
lemma stateOf_withReplaceable (names : List String) :
    (withReplaceable names).stateOf n =
      if n ∈ alwaysReplaceable ++ names then some .replaceable else none := by
  have hfold : ∀ (ns : List String) (g : Globals),
      (ns.foldl (fun g name => g.set name .replaceable) g).stateOf n =
        if n ∈ ns then some .replaceable else g.stateOf n := by
    intro ns
    induction ns with
    | nil => intro g; rfl
    | cons m ns ih =>
      intro g
      rw [List.foldl_cons, ih, stateOf_set]
      by_cases hm : n = m <;> simp [hm]
  exact hfold _ _

lemma stateOf_mention :
    (g.mention name).stateOf n =
      if n = name ∧ g.stateOf n = none then some .unchanged else g.stateOf n := by
  rw [mention]
  split
  · rename_i hstate
    rw [stateOf_set]
    by_cases h : n = name <;> simp [h, hstate]
  · rename_i state hstate
    by_cases h : n = name <;> simp [h, hstate]

lemma stateOf_write :
    (g.write name).stateOf n =
      if n = name ∧ (g.stateOf n = none ∨ g.stateOf n = some .unchanged) then some .written
      else g.stateOf n := by
  rw [write]
  split <;> rename_i hstate
  · rw [stateOf_set]
    by_cases h : n = name <;> simp [h, hstate]
  · rw [stateOf_set]
    by_cases h : n = name <;> simp [h, hstate]
  · by_cases h : n = name <;> simp [h, hstate]
  · by_cases h : n = name <;> simp [h, hstate]

/-- **The state of a name after some events.** A name that was replaceable or written stays so. Any
other one is written if one of the events writes it, and otherwise unchanged if it was or if one of
them mentions it. -/
theorem stateOf_foldl_record_eq (es : List GlobalEvent) :
    ∀ g : Globals, (es.foldl record g).stateOf n =
      match g.stateOf n with
      | some .replaceable => some .replaceable
      | some .written => some .written
      | some .unchanged => if .write n ∈ es then some .written else some .unchanged
      | none =>
        if .write n ∈ es then some .written
        else if .mention n ∈ es then some .unchanged else none := by
  induction es with
  | nil =>
    intro g
    rw [List.foldl_nil]
    rcases g.stateOf n with _ | _ | _ | _ <;> rfl
  | cons e es ih =>
    intro g
    rw [List.foldl_cons, ih]
    cases e with
    | mention name =>
      rw [record, stateOf_mention]
      by_cases h : n = name <;> rcases g.stateOf n with _ | _ | _ | _ <;> simp [h]
    | write name =>
      rw [record, stateOf_write]
      by_cases h : n = name <;> rcases g.stateOf n with _ | _ | _ | _ <;> simp [h]

/-- **A name is unchanged in the end** if it was or is mentioned as a new one, and nothing
assigns it. -/
theorem stateOf_foldl_record (es : List GlobalEvent) :
    ∀ g : Globals, (es.foldl record g).stateOf n = some .unchanged ↔
      (g.stateOf n = some .unchanged ∨ g.stateOf n = none ∧ .mention n ∈ es) ∧ .write n ∉ es := by
  intro g
  rw [stateOf_foldl_record_eq]
  rcases g.stateOf n with _ | _ | _ | _ <;> simp
  split_ifs <;> simp_all

end Globals

lemma Expr.globalName?_eq_some_iff {e : BoundExpr} {n : String} :
    e.globalName? = some n ↔ ∃ pos, e = .name (.globalVar n) pos := by
  constructor
  · intro h
    unfold globalName? at h
    split at h
    · cases h
      exact ⟨_, rfl⟩
    · cases h
  · rintro ⟨pos, rfl⟩
    rfl

lemma Expr.localId?_eq_some_iff {e : BoundExpr} {id : LocalId} :
    e.localId? = some id ↔ ∃ pos, e = .name (.localVar id) pos := by
  constructor
  · intro h
    unfold localId? at h
    split at h
    · cases h
      exact ⟨_, rfl⟩
    · cases h
  · rintro ⟨pos, rfl⟩
    rfl

namespace Program

variable {p : Program} {n : String}

lemma mention_mem_globalEvents :
    GlobalEvent.mention n ∈ p.globalEvents ↔
      ∃ pos, Node.expr (.name (.globalVar n) pos) ∈ (Node.block p.body).nodes := by
  rw [globalEvents, List.mem_flatMap]
  constructor
  · rintro ⟨node, hnode, hmem⟩
    cases node with
    | expr e =>
      have hname : e.globalName? = some n := by simpa [Node.globalEvents] using hmem
      obtain ⟨pos, rfl⟩ := Expr.globalName?_eq_some_iff.1 hname
      exact ⟨pos, hnode⟩
    | stmt s => simp [Node.globalEvents] at hmem
    | item i => exact absurd hmem List.not_mem_nil
    | block b => exact absurd hmem List.not_mem_nil
  · rintro ⟨pos, hnode⟩
    exact ⟨_, hnode, List.mem_singleton_self _⟩

lemma write_mem_globalEvents :
    GlobalEvent.write n ∈ p.globalEvents ↔ p.Assigns (.globalVar n) := by
  rw [globalEvents, List.mem_flatMap]
  constructor
  · rintro ⟨node, hnode, hmem⟩
    cases node with
    | expr e => simp [Node.globalEvents] at hmem
    | stmt s =>
      obtain ⟨target, htarget, hname⟩ : ∃ t ∈ s.targets, t.globalName? = some n := by
        simpa [Node.globalEvents] using hmem
      obtain ⟨pos, rfl⟩ := Expr.globalName?_eq_some_iff.1 hname
      exact ⟨s, pos, hnode, Stmt.assignsTo_iff_mem_targets.2 htarget⟩
    | item i => exact absurd hmem List.not_mem_nil
    | block b => exact absurd hmem List.not_mem_nil
  · rintro ⟨s, pos, hnode, htarget⟩
    refine ⟨_, hnode, List.mem_map_of_mem (List.mem_filterMap.2 ?_)⟩
    exact ⟨_, Stmt.assignsTo_iff_mem_targets.1 htarget, rfl⟩

end Program

/-- **The globals nothing replaces** are those that are mentioned, that the host does not replace
and that nothing assigns. -/
theorem Facts.stateOf_eq_unchanged_iff {replaceable : List String} {p : Program} {n : String} :
    (Facts.ofProgram replaceable p).globals.stateOf n = some .unchanged ↔
      (∃ pos, Node.expr (.name (.globalVar n) pos) ∈ (Node.block p.body).nodes) ∧
        n ∉ Globals.alwaysReplaceable ∧ n ∉ replaceable ∧ ¬ p.Assigns (.globalVar n) := by
  rw [ofProgram, Globals.track, Globals.stateOf_foldl_record, Globals.stateOf_withReplaceable,
    Program.mention_mem_globalEvents, Program.write_mem_globalEvents]
  by_cases h : n ∈ Globals.alwaysReplaceable ++ replaceable
  · rw [if_pos h]
    rw [List.mem_append] at h
    simp only [reduceCtorEq, Option.some.injEq, false_and, or_self]
    tauto
  · rw [if_neg h]
    rw [List.mem_append] at h
    simp only [reduceCtorEq, true_and, false_or]
    tauto

/-! ## Declarations come first -/

section DeclaredFirst

variable {α : Type}

/-- **A list whose elements use only what earlier ones declare**, or what is known before. -/
def DeclaredFirst (declares : α → List LocalId) (uses : α → LocalId → Prop) :
    List LocalId → List α → Prop
  | _, [] => True
  | known, x :: xs =>
    (∀ id, uses x id → id ∈ known) ∧ DeclaredFirst declares uses (known ++ declares x) xs

namespace DeclaredFirst

variable {declares : α → List LocalId} {uses : α → LocalId → Prop} {known known' : List LocalId}
  {xs ys : List α}

lemma append_iff :
    DeclaredFirst declares uses known (xs ++ ys) ↔ DeclaredFirst declares uses known xs ∧
      DeclaredFirst declares uses (known ++ xs.flatMap declares) ys := by
  induction xs generalizing known with
  | nil => simp [DeclaredFirst]
  | cons x xs ih =>
    rw [List.cons_append, DeclaredFirst, DeclaredFirst, ih, List.flatMap_cons, List.append_assoc,
      and_assoc]

/-- What an element uses is declared somewhere. -/
lemma mem_of_uses (h : DeclaredFirst declares uses known xs) {x : α} (hx : x ∈ xs) {id : LocalId}
    (hid : uses x id) : id ∈ known ++ xs.flatMap declares := by
  obtain ⟨front, rest, rfl⟩ := List.append_of_mem hx
  have huse := (append_iff.1 h).2.1 id hid
  rw [List.flatMap_append, ← List.append_assoc]
  exact List.mem_append_left _ huse

/-- A list that uses only what is known before has its declarations first. -/
lemma of_known (h : ∀ x ∈ xs, ∀ id, uses x id → id ∈ known) :
    DeclaredFirst declares uses known xs := by
  induction xs generalizing known with
  | nil => trivial
  | cons x xs ih =>
    refine ⟨h x List.mem_cons_self, ih fun y hy id hid => ?_⟩
    exact List.mem_append_left _ (h y (List.mem_cons_of_mem _ hy) id hid)

/-- Each element may be cut into smaller ones with the same declarations. -/
lemma flatMap {γ : Type} {declares' : γ → List LocalId} {uses' : γ → LocalId → Prop}
    {f : α → List γ} (hf : ∀ x, (f x).flatMap declares' = declares x)
    (h : DeclaredFirst declares uses known xs)
    (huses : ∀ x ∈ xs, ∀ y ∈ f x, ∀ id, uses' y id → uses x id) :
    DeclaredFirst declares' uses' known (xs.flatMap f) := by
  induction xs generalizing known with
  | nil => trivial
  | cons x xs ih =>
    obtain ⟨hx, hxs⟩ := h
    rw [List.flatMap_cons, append_iff, hf]
    refine ⟨of_known fun y hy id hid => ?_, ih hxs fun z hz => ?_⟩
    · exact hx id (huses x List.mem_cons_self y hy id hid)
    · exact huses z (List.mem_cons_of_mem _ hz)

end DeclaredFirst

end DeclaredFirst

section Scoping

variable (L : Array LocalDecl)

lemma Visible.mem_bind {v : Visible} {id : LocalId} {b : String × LocalId}
    (h : b ∈ v.bind L id) : b ∈ v ∨ b.2 = id := by
  unfold bind at h
  split at h
  · rcases List.mem_cons.1 h with rfl | h
    · exact .inr rfl
    · exact .inl h
  · exact .inl h

lemma Visible.mem_bindAll {b : String × LocalId} (ids : List LocalId) :
    ∀ v : Visible, b ∈ v.bindAll L ids → b ∈ v ∨ b.2 ∈ ids := by
  induction ids with
  | nil => exact fun v h => .inl h
  | cons id ids ih =>
    intro v h
    rcases ih _ h with h | h
    · rcases mem_bind L h with h | h
      · exact .inl h
      · exact .inr (h ▸ List.mem_cons_self)
    · exact .inr (List.mem_cons_of_mem _ h)

/-- What is visible behind a statement was visible before it or is declared by it. -/
lemma mem_visibleAfter {s : BoundStmt} {v : Visible} {b : String × LocalId}
    (h : b ∈ s.visibleAfter L v) : b ∈ v ∨ b.2 ∈ (Node.stmt s).declared := by
  unfold Stmt.visibleAfter at h
  split at h
  · exact Visible.mem_bindAll L _ v h
  · rcases Visible.mem_bind L h with h | h
    · exact .inl h
    · exact .inr (List.mem_singleton.2 h)
  · exact .inl h

lemma mem_visibleBehind {b : String × LocalId} (ss : List BoundStmt) :
    ∀ v : Visible, b ∈ visibleBehind L v ss → b ∈ v ∨ ∃ s ∈ ss, b.2 ∈ (Node.stmt s).declared := by
  induction ss with
  | nil => exact fun v h => .inl h
  | cons s ss ih =>
    intro v h
    rcases ih _ h with h | ⟨s', hs', h⟩
    · rcases mem_visibleAfter L h with h | h
      · exact .inl h
      · exact .inr ⟨s, List.mem_cons_self, h⟩
    · exact .inr ⟨s', List.mem_cons_of_mem _ hs', h⟩

/-- The nodes of a walk of the scoping rules use what they see. -/
abbrev NodesDeclaredFirst (known : List LocalId)
    (xs : List (Visible × Node Reference LocalId)) : Prop :=
  DeclaredFirst (fun x => x.2.declared) (fun x id => ∃ b ∈ x.1, b.2 = id) known xs

/-- Whether a walk over a tree from a place that sees only known declarations has its declarations
first. -/
abbrev WalksDeclaredFirst (n : Node Reference LocalId) : Prop :=
  ∀ (v : Visible) (known : List LocalId), (∀ b ∈ v, b.2 ∈ known) →
    NodesDeclaredFirst known ((scoping L).preorder v n)

/-- Walks over trees that see only known declarations, one behind the other. -/
lemma preorders_declaredFirst (ps : List (Visible × Node Reference LocalId))
    (hps : ∀ x ∈ ps, WalksDeclaredFirst L x.2) :
    ∀ known : List LocalId, (∀ x ∈ ps, ∀ b ∈ x.1, b.2 ∈ known) →
      NodesDeclaredFirst known ((scoping L).preorders ps) := by
  induction ps with
  | nil => exact fun _ _ => trivial
  | cons x ps ih =>
    intro known hknown
    refine DeclaredFirst.append_iff.2
      ⟨hps x List.mem_cons_self _ _ (hknown x List.mem_cons_self), ?_⟩
    refine ih (fun y hy => hps y (List.mem_cons_of_mem _ hy)) _ fun y hy b hb => ?_
    exact List.mem_append_left _ (hknown y (List.mem_cons_of_mem _ hy) b hb)

/-- Walks over the parts of a node that see what the node sees, and behind them over one that may
see what the node declares, too. -/
lemma preorders_append_declaredFirst {l : List (Visible × Node Reference LocalId)}
    {x : Visible × Node Reference LocalId} {v : Visible} {known ids : List LocalId}
    (hparts : ∀ y ∈ l ++ [x], WalksDeclaredFirst L y.2) (hv : ∀ b ∈ v, b.2 ∈ known)
    (hids : ∀ id ∈ ids, id ∈ known) (hl : ∀ y ∈ l, y.1 = v)
    (hx : ∀ b ∈ x.1, b ∈ v ∨ b.2 ∈ ids) :
    NodesDeclaredFirst known ((scoping L).preorders (l ++ [x])) := by
  refine preorders_declaredFirst L _ hparts known fun y hy b hb => ?_
  rcases List.mem_append.1 hy with hy | hy
  · exact hv b (hl y hy ▸ hb)
  · rw [List.mem_singleton.1 hy] at hb
    rcases hx b hb with hb | hb
    · exact hv b hb
    · exact hids b.2 hb

/-- The declarations of a walk are those of the nodes. -/
lemma flatMap_declared_preorder (v : Visible) (n : Node Reference LocalId) :
    ((scoping L).preorder v n).flatMap (fun x => x.2.declared) = n.nodes.flatMap Node.declared := by
  rw [← (scoping L).map_snd_preorder v n, List.flatMap_map]

/-- Walks over the statements of a block. -/
lemma scopedStmts_declaredFirst (ss : List BoundStmt)
    (hss : ∀ s ∈ ss, WalksDeclaredFirst L (.stmt s)) :
    ∀ (v : Visible) (known : List LocalId), (∀ b ∈ v, b.2 ∈ known) →
      NodesDeclaredFirst known ((scoping L).preorders (scopedStmts L v ss)) := by
  induction ss with
  | nil => exact fun _ _ _ => trivial
  | cons s ss ih =>
    intro v known hv
    refine DeclaredFirst.append_iff.2 ⟨hss s List.mem_cons_self v known hv, ?_⟩
    refine ih (fun s' hs' => hss s' (List.mem_cons_of_mem _ hs')) _ _ fun b hb => ?_
    rw [flatMap_declared_preorder, List.mem_append]
    rcases mem_visibleAfter L hb with hb | hb
    · exact .inl (hv b hb)
    · exact .inr (List.mem_flatMap.2 ⟨_, Node.mem_nodes_self _, hb⟩)

/-- **Declarations come first** in a walk of the scoping rules.

**Proof sketch.** By induction over the tree. What a part sees is what its node sees, what the node
declares, or what the parts before it declare. -/
theorem Inherited.preorder_declaredFirst (n : Node Reference LocalId) :
    WalksDeclaredFirst L n := by
  induction n using Node.induction with
  | step n ih =>
    intro v known hv
    rw [preorder_eq]
    refine ⟨fun id ⟨b, hb, hid⟩ => hid ▸ hv b hb, ?_⟩
    have hv' : ∀ b ∈ v, b.2 ∈ known ++ n.declared := fun b hb => List.mem_append_left _ (hv b hb)
    have hparts : ∀ x ∈ n.scoped L v, WalksDeclaredFirst L x.2 := fun x hx =>
      ih x.2 (mem_children (I := scoping L) hx)
    show NodesDeclaredFirst (known ++ n.declared) ((scoping L).preorders (n.scoped L v))
    have hids : ∀ id ∈ n.declared, id ∈ known ++ n.declared := fun _ => List.mem_append_right _
    revert hparts hids
    unfold Node.scoped
    split <;> intro hparts hids
    · rename_i b
      exact scopedStmts_declaredFirst L b.stmts
        (fun s hs => ih (.stmt s) (List.mem_map_of_mem hs)) v _ hv'
    · refine preorders_append_declaredFirst L (l := []) hparts hv' hids nofun fun b hb => ?_
      exact Visible.mem_bindAll L _ v hb
    · refine preorders_append_declaredFirst L (l := []) hparts hv' hids nofun fun b hb => ?_
      exact (Visible.mem_bind L hb).imp_right List.mem_singleton.2
    · -- the condition sees what the body has declared
      rename_i body condition pos
      have hbody := ih (.block body) List.mem_cons_self
      have hcondition := ih (.expr condition) (List.mem_cons_of_mem _ List.mem_cons_self)
      refine DeclaredFirst.append_iff.2 ⟨hbody v _ hv', ?_⟩
      refine DeclaredFirst.append_iff.2 ⟨hcondition _ _ fun b hb => ?_, trivial⟩
      rw [flatMap_declared_preorder, List.mem_append]
      rcases mem_visibleBehind L _ v hb with hb | ⟨s, hs, hb⟩
      · exact .inl (hv' b hb)
      · refine .inr (List.mem_flatMap.2 ⟨.stmt s, ?_, hb⟩)
        exact Node.mem_nodes_of_mem_children (Node.mem_nodes_self _) (List.mem_map_of_mem hs)
    · rename_i var start limit step body pos
      refine preorders_append_declaredFirst L
        (l := (v, .expr start) :: (v, .expr limit) :: step.toList.map fun e => (v, .expr e))
        hparts hv' hids (fun y hy => ?_) fun b hb => ?_
      · simp only [List.mem_cons, List.mem_map] at hy
        rcases hy with rfl | rfl | ⟨e, -, rfl⟩ <;> rfl
      · exact (Visible.mem_bind L hb).imp_right List.mem_singleton.2
    · refine preorders_append_declaredFirst L hparts hv' hids (fun y hy => ?_) fun b hb => ?_
      · obtain ⟨e, -, rfl⟩ := List.mem_map.1 hy
        rfl
      · exact Visible.mem_bindAll L _ v hb
    · refine preorders_declaredFirst L _ hparts _ fun y hy => ?_
      obtain ⟨c, -, rfl⟩ := List.mem_map.1 hy
      exact hv'

end Scoping

/-! ## Local variables -/

namespace VariableEvent

/-- The variable an event declares. -/
def declared : VariableEvent → List LocalId
  | .declare id _ => [id]
  | .write _ => []

end VariableEvent

namespace Variables

/-- Events that assign only variables declared before. -/
abbrev EventsDeclaredFirst (es : List VariableEvent) : Prop :=
  DeclaredFirst VariableEvent.declared (fun e id => e = .write id) [] es

lemma find?_declare (v : Variables) (id i : LocalId) (init : Option BoundExpr) :
    (v.declare id init).find? i = if i = id then some ⟨init, false⟩ else v.find? i := by
  rw [find?, declare, List.lookup_cons]
  by_cases h : i = id
  · rw [if_pos h, h, beq_self_eq_true]
  · rw [if_neg h, beq_false_of_ne h]; rfl

lemma find?_write (v : Variables) (id i : LocalId) :
    (v.write id).find? i =
      if i = id then some { (v.find? id).getD ⟨none, false⟩ with written := true }
      else v.find? i := by
  rw [find?, write, List.lookup_cons]
  by_cases h : i = id
  · rw [if_pos h, h, beq_self_eq_true]
  · rw [if_neg h, beq_false_of_ne h]; rfl

/-- **What is recorded of a variable** in the end: its first value, and whether it is assigned.

**Proof sketch.** By induction on the events from the last one. A declaration is the first event of
its variable, so it forgets nothing; an assignment finds the declaration. -/
theorem find?_foldl_record (es : List VariableEvent) :
    EventsDeclaredFirst es → (es.flatMap VariableEvent.declared).Nodup →
    (∀ id, id ∉ es.flatMap VariableEvent.declared → (es.foldl record empty).find? id = none) ∧
      ∀ id init, .declare id init ∈ es → ∃ written,
        (es.foldl record empty).find? id = some ⟨init, written⟩ ∧
          (written = true ↔ .write id ∈ es) := by
  induction es using List.reverseRecOn with
  | nil => exact fun _ _ => ⟨fun _ _ => rfl, nofun⟩
  | append_singleton es e ih =>
    intro hfirst hnodup
    obtain ⟨hfront, hlast, -⟩ := DeclaredFirst.append_iff.1 hfirst
    rw [List.flatMap_append, List.nodup_append] at hnodup
    obtain ⟨hnone, hsome⟩ := ih hfront hnodup.1
    rw [List.foldl_append, List.foldl_cons, List.foldl_nil, List.flatMap_append]
    cases e with
    | declare i init =>
      -- the variable is new, so nothing has assigned it
      have hnew : i ∉ es.flatMap VariableEvent.declared := fun h =>
        hnodup.2.2 i h i (List.mem_singleton_self _) rfl
      have hunwritten : .write i ∉ es := fun hmem =>
        hnew (DeclaredFirst.mem_of_uses hfront hmem rfl)
      refine ⟨fun id hid => ?_, fun id init' hmem => ?_⟩
      · have h : id ∉ es.flatMap VariableEvent.declared ∧ id ≠ i := by
          simpa [VariableEvent.declared] using hid
        rw [record, find?_declare, if_neg h.2, hnone id h.1]
      · rw [record, find?_declare]
        rcases List.mem_append.1 hmem with hmem | hmem
        · have h : id ≠ i := fun h =>
            hnew (List.mem_flatMap.2 ⟨_, hmem, List.mem_singleton.2 h.symm⟩)
          rw [if_neg h]
          simpa using hsome id init' hmem
        · cases List.mem_singleton.1 hmem
          exact ⟨false, if_pos rfl, by simpa using hunwritten⟩
    | write i =>
      refine ⟨fun id hid => ?_, fun id init hmem => ?_⟩
      · have h : id ∉ es.flatMap VariableEvent.declared := by
          simpa [VariableEvent.declared] using hid
        have hi : id ≠ i := fun hi => h (hlast id (hi ▸ rfl))
        rw [record, find?_write, if_neg hi, hnone id h]
      · have hmem : .declare id init ∈ es := by simpa using hmem
        obtain ⟨written, hfind, hwritten⟩ := hsome id init hmem
        rw [record, find?_write]
        by_cases hi : id = i
        · subst hi
          refine ⟨true, ?_, by simp⟩
          rw [if_pos rfl, hfind]
          rfl
        · rw [if_neg hi]
          refine ⟨written, hfind, ?_⟩
          simpa [hi] using hwritten

/-- **The entry of a variable** has the first value its declaration gives, and tells whether it is
assigned. -/
theorem find?_foldl_record_eq_some_iff {es : List VariableEvent} (hfirst : EventsDeclaredFirst es)
    (hnodup : (es.flatMap VariableEvent.declared).Nodup) {id : LocalId} {x : Variable} :
    (es.foldl record empty).find? id = some x ↔
      .declare id x.init ∈ es ∧ (x.written = true ↔ .write id ∈ es) := by
  obtain ⟨hnone, hsome⟩ := find?_foldl_record es hfirst hnodup
  constructor
  · intro h
    have hid : id ∈ es.flatMap VariableEvent.declared := by
      by_contra hid
      rw [hnone id hid] at h
      cases h
    obtain ⟨event, hevent, hid⟩ := List.mem_flatMap.1 hid
    cases event with
    | write i => exact absurd hid List.not_mem_nil
    | declare i init =>
      cases List.mem_singleton.1 hid
      obtain ⟨written, hfind, hwritten⟩ := hsome id init hevent
      cases hfind.symm.trans h
      exact ⟨hevent, hwritten⟩
  · rintro ⟨hmem, hwritten⟩
    obtain ⟨written, hfind, hwritten'⟩ := hsome id x.init hmem
    have heq : written = x.written := Bool.eq_iff_iff.2 (hwritten'.trans hwritten.symm)
    rw [hfind, heq]

/-- **A variable keeps its first value** if nothing assigns it. -/
theorem stableInit?_foldl_record {es : List VariableEvent} (hfirst : EventsDeclaredFirst es)
    (hnodup : (es.flatMap VariableEvent.declared).Nodup) (id : LocalId) (e : BoundExpr) :
    (es.foldl record empty).stableInit? id = some e ↔
      .declare id (some e) ∈ es ∧ .write id ∉ es := by
  have hentry : ∀ x, (es.foldl record empty).find? id = some x ↔
      .declare id x.init ∈ es ∧ (x.written = true ↔ .write id ∈ es) := fun x =>
    find?_foldl_record_eq_some_iff hfirst hnodup
  constructor
  · intro h
    cases hx : (es.foldl record empty).find? id with
    | none =>
      rw [stableInit?, hx] at h
      cases h
    | some x =>
      obtain ⟨hdeclared, hwritten⟩ := (hentry x).1 hx
      obtain ⟨init, written⟩ := x
      rw [stableInit?, hx] at h
      cases written with
      | true => cases h
      | false =>
        change init = some e at h
        exact ⟨h ▸ hdeclared, fun hmem => Bool.false_ne_true (hwritten.2 hmem)⟩
  · rintro ⟨hmem, hunwritten⟩
    have hx := (hentry ⟨some e, false⟩).2 ⟨hmem, by simpa using hunwritten⟩
    rw [stableInit?, hx]
    rfl

end Variables

/-! ### The events of a program -/

lemma map_fst_initializers (vars : List LocalId) (values : List BoundExpr) :
    (initializers vars values).map Prod.fst = vars := by
  fun_induction initializers vars values <;> simp_all

lemma coveredAt_singleton_iff {e : BoundExpr} {place : Nat} :
    CoveredAt [e] place ↔ e.isMultiValue := by
  constructor
  · rintro ⟨front, last, h, hlast, -⟩
    rcases List.singleton_eq_append_iff.1 h with ⟨-, h⟩ | ⟨-, h⟩
    · cases h
      exact hlast
    · cases h
  · intro h
    exact ⟨[], e, rfl, h, Nat.zero_le _⟩

lemma not_coveredAt_zero {e e' : BoundExpr} {es : List BoundExpr} :
    ¬ CoveredAt (e :: e' :: es) 0 := by
  rintro ⟨front, last, h, -, hfront⟩
  rw [Nat.le_zero, List.length_eq_zero_iff] at hfront
  subst hfront
  cases h

lemma coveredAt_succ_iff {e e' : BoundExpr} {es : List BoundExpr} {place : Nat} :
    CoveredAt (e :: e' :: es) (place + 1) ↔ CoveredAt (e' :: es) place := by
  constructor
  · rintro ⟨front, last, h, hlast, hfront⟩
    cases front with
    | nil => cases h
    | cons x front =>
      rw [List.cons_append, List.cons.injEq] at h
      exact ⟨front, last, h.2, hlast, Nat.le_of_succ_le_succ hfront⟩
  · rintro ⟨front, last, h, hlast, hfront⟩
    exact ⟨e :: front, last, by rw [h]; rfl, hlast, Nat.succ_le_succ hfront⟩

lemma not_coveredAt_nil {place : Nat} : ¬ CoveredAt [] place := by
  rintro ⟨front, last, h, -⟩
  exact List.append_ne_nil_of_right_ne_nil front (List.cons_ne_nil _ _) h.symm

/-- What a `local` statement gives the variable at a place: nothing if a last expression covers the
place, and otherwise the expression there, if there is one. -/
lemma getElem?_initializers_eq_some_iff {vars : List LocalId} {values : List BoundExpr}
    {id : LocalId} {init : Option BoundExpr} : ∀ place,
    (initializers vars values)[place]? = some (id, init) ↔ vars[place]? = some id ∧
      (CoveredAt values place ∧ init = none ∨ ¬ CoveredAt values place ∧ init = values[place]?) := by
  fun_induction initializers vars values with
  | case1 values => simp
  | case2 i ids ih =>
    rintro (_ | place)
    · simp [not_coveredAt_nil, eq_comm]
    · simpa [not_coveredAt_nil] using ih place
  | case3 i ids e h ih =>
    rintro (_ | place)
    · simp [coveredAt_singleton_iff, h, eq_comm]
    · simpa [coveredAt_singleton_iff, not_coveredAt_nil, h] using ih place
  | case4 i ids e h ih =>
    rintro (_ | place)
    · simp [coveredAt_singleton_iff, h, eq_comm]
    · simpa [coveredAt_singleton_iff, not_coveredAt_nil, h] using ih place
  | case5 i ids e es hne ih =>
    obtain ⟨e', es, rfl⟩ := List.exists_cons_of_ne_nil hne
    rintro (_ | place)
    · simp [not_coveredAt_zero, eq_comm]
    · simpa [coveredAt_succ_iff] using ih place

/-- The first values of the variables of a `local` statement, by their places. -/
lemma mem_initializers_iff {vars : List LocalId} {values : List BoundExpr} {id : LocalId}
    {e : BoundExpr} :
    (id, some e) ∈ initializers vars values ↔
      ∃ place, vars[place]? = some id ∧ values[place]? = some e ∧ ¬ CoveredAt values place := by
  rw [List.mem_iff_getElem?]
  refine exists_congr fun place => ?_
  rw [getElem?_initializers_eq_some_iff]
  refine and_congr_right fun _ => ?_
  simp [and_comm, eq_comm]

/-- The declarations among the events of a node are those of the node. -/
lemma flatMap_declared_variableEvents (n : Node Reference LocalId) :
    n.variableEvents.flatMap VariableEvent.declared = n.declared := by
  have hdeclare : ∀ ds : List (LocalId × Option BoundExpr),
      (ds.map fun d => VariableEvent.declare d.1 d.2).flatMap VariableEvent.declared =
        ds.map Prod.fst := by
    intro ds
    rw [List.flatMap_map]
    exact List.map_eq_flatMap.symm
  have hwrite : ∀ ids : List LocalId,
      (ids.map VariableEvent.write).flatMap VariableEvent.declared = [] := by
    intro ids
    rw [List.flatMap_map]
    exact List.flatMap_eq_nil_iff.2 fun _ _ => rfl
  cases n with
  | expr e =>
    cases e with
    | function f =>
      show (f.params.map (VariableEvent.declare · none)).flatMap _ = f.params
      rw [List.flatMap_map]
      exact List.flatMap_singleton' f.params
    | _ => rfl
  | stmt s =>
    rw [Node.variableEvents, List.flatMap_append, hdeclare, hwrite, List.append_nil]
    cases s with
    | localVars vars values pos => exact map_fst_initializers vars values
    | genericFor vars values body pos =>
      rw [Stmt.declarations, List.map_map]
      exact List.map_id vars
    | _ => rfl
  | item i => rfl
  | block b => rfl

/-- A node assigns to a local if it is a statement with that target. -/
lemma write_mem_variableEvents_iff {n : Node Reference LocalId} {id : LocalId} :
    .write id ∈ n.variableEvents ↔
      ∃ s pos, n = .stmt s ∧ s.AssignsTo (.name (.localVar id) pos) := by
  constructor
  · intro hmem
    cases n with
    | expr e =>
      cases e with
      | function f => simp [Node.variableEvents] at hmem
      | _ => exact absurd hmem List.not_mem_nil
    | stmt s =>
      obtain ⟨target, htarget, hid⟩ : ∃ t ∈ s.targets, t.localId? = some id := by
        simpa [Node.variableEvents] using hmem
      obtain ⟨pos, rfl⟩ := Expr.localId?_eq_some_iff.1 hid
      exact ⟨s, pos, rfl, Stmt.assignsTo_iff_mem_targets.2 htarget⟩
    | item i => exact absurd hmem List.not_mem_nil
    | block b => exact absurd hmem List.not_mem_nil
  · rintro ⟨s, pos, rfl, htarget⟩
    refine List.mem_append_right _ (List.mem_map_of_mem (List.mem_filterMap.2 ?_))
    exact ⟨_, Stmt.assignsTo_iff_mem_targets.1 htarget, rfl⟩

/-- A target of a statement stands where the statement does. -/
lemma Stmt.AssignsTo.mem_scoped {s : BoundStmt} {e : BoundExpr} (h : s.AssignsTo e)
    (L : Array LocalDecl) (v : Visible) : (v, .expr e) ∈ (Node.stmt s).scoped L v := by
  cases h with
  | assign h => exact List.mem_map_of_mem (List.mem_append_left _ (List.mem_map_of_mem h))
  | compound => exact List.mem_cons_self
  | functionDecl => exact List.mem_cons_self

namespace Program

variable {p : Program} {id : LocalId}

lemma write_mem_variableEvents :
    VariableEvent.write id ∈ p.variableEvents ↔ p.Assigns (.localVar id) := by
  rw [variableEvents, List.mem_flatMap]
  constructor
  · rintro ⟨node, hnode, hmem⟩
    obtain ⟨s, pos, rfl, h⟩ := write_mem_variableEvents_iff.1 hmem
    exact ⟨s, pos, hnode, h⟩
  · rintro ⟨s, pos, hnode, h⟩
    exact ⟨_, hnode, write_mem_variableEvents_iff.2 ⟨s, pos, rfl, h⟩⟩

/-- The first values are those of `local` statements, and local functions. -/
lemma declare_mem_variableEvents {e : BoundExpr} :
    VariableEvent.declare id (some e) ∈ p.variableEvents ↔ p.Initializes id e ∨
      ∃ f pos, e = .function f ∧ .stmt (.localFunction id f pos) ∈ (Node.block p.body).nodes := by
  rw [variableEvents, List.mem_flatMap]
  constructor
  · rintro ⟨node, hnode, hmem⟩
    cases node with
    | expr e' =>
      cases e' with
      | function f => simp [Node.variableEvents] at hmem
      | _ => exact absurd hmem List.not_mem_nil
    | stmt s =>
      have hmem : (id, some e) ∈ s.declarations := by simpa [Node.variableEvents] using hmem
      cases s with
      | localVars vars values pos =>
        obtain ⟨place, hid, he, hcovered⟩ := mem_initializers_iff.1 hmem
        exact .inl ⟨vars, values, pos, place, hnode, hid, he, hcovered⟩
      | localFunction var f pos =>
        cases List.mem_singleton.1 hmem
        exact .inr ⟨f, pos, rfl, hnode⟩
      | numericFor var start limit step body pos => cases List.mem_singleton.1 hmem
      | genericFor vars values body pos => simp [Stmt.declarations] at hmem
      | _ => exact absurd hmem List.not_mem_nil
    | item i => exact absurd hmem List.not_mem_nil
    | block b => exact absurd hmem List.not_mem_nil
  · have hmem : ∀ s : BoundStmt, (id, some e) ∈ s.declarations →
        VariableEvent.declare id (some e) ∈ (Node.stmt s).variableEvents := fun s h =>
      List.mem_append_left _ (List.mem_map_of_mem (f := fun d => VariableEvent.declare d.1 d.2) h)
    rintro (⟨vars, values, pos, place, hnode, hid, he, hcovered⟩ | ⟨f, pos, rfl, hnode⟩)
    · exact ⟨_, hnode, hmem _ (mem_initializers_iff.2 ⟨place, hid, he, hcovered⟩)⟩
    · exact ⟨_, hnode, hmem _ (List.mem_singleton_self _)⟩

/-! ### Bound programs -/

/-- A bound program has its declarations first. -/
lemma scopedNodes_declaredFirst (p : Program) : NodesDeclaredFirst [] p.scopedNodes :=
  Inherited.preorder_declaredFirst p.locals (.block p.body) [] [] nofun

lemma flatMap_declared_scopedNodes (p : Program) :
    p.scopedNodes.flatMap (fun x => x.2.declared) = declaredIn [.block p.body] := by
  rw [scopedNodes, flatMap_declared_preorder, declaredIn, List.flatMap_singleton]

/-- What is visible somewhere in a bound program is a declaration of the program. -/
lemma Bound.lt_size (hp : p.Bound) {x : Visible × Node Reference LocalId}
    (hx : x ∈ p.scopedNodes) : ∀ b ∈ x.1, b.2 < p.locals.size := by
  intro b hb
  have hmem := (scopedNodes_declaredFirst p).mem_of_uses hx ⟨b, hb, rfl⟩
  rw [List.nil_append, flatMap_declared_scopedNodes] at hmem
  exact hp.mem_declaredIn_iff.1 hmem

/-- **A statement of a bound program assigns to a local only where it is visible.** -/
lemma Bound.visible_of_write (hp : p.Bound) {x : Visible × Node Reference LocalId}
    (hx : x ∈ p.scopedNodes) (hid : .write id ∈ x.2.variableEvents) : ∃ b ∈ x.1, b.2 = id := by
  obtain ⟨v, n⟩ := x
  obtain ⟨s, pos, heq, h⟩ := write_mem_variableEvents_iff.1 hid
  change n = .stmt s at heq
  subst heq
  have htarget : (v, .expr (.name (.localVar id) pos)) ∈ p.scopedNodes :=
    Inherited.mem_preorder_of_mem_parts _ hx (h.mem_scoped p.locals v)
  exact ((hp.nodes _ htarget).resolves _ pos rfl).exists_mem

/-- The expression that initializes a variable stands where only earlier declarations are
visible. -/
lemma Bound.visible_of_initializes (hp : p.Bound) {e : BoundExpr} (h : p.Initializes id e) :
    ∃ v, (v, .expr e) ∈ p.scopedNodes ∧ ∀ b ∈ v, b.2 < id := by
  obtain ⟨vars, values, pos, place, hnode, hid, he, -⟩ := h
  rw [← p.map_snd_scopedNodes] at hnode
  obtain ⟨⟨v, n⟩, hstmt, rfl⟩ := List.mem_map.1 hnode
  refine ⟨v, Inherited.mem_preorder_of_mem_parts _ hstmt ?_,
    (hp.nodes _ hstmt).newer id (List.mem_of_getElem? hid)⟩
  exact List.mem_map_of_mem (List.mem_map_of_mem (List.mem_of_getElem? he))

/-- The events of a bound program have the declarations first. -/
lemma Bound.variableEvents_declaredFirst (hp : p.Bound) :
    Variables.EventsDeclaredFirst p.variableEvents := by
  have hevents : p.variableEvents = p.scopedNodes.flatMap fun x => x.2.variableEvents := by
    rw [variableEvents, ← map_snd_scopedNodes, List.flatMap_map]
  rw [hevents]
  refine (scopedNodes_declaredFirst p).flatMap (fun x => flatMap_declared_variableEvents x.2) ?_
  intro x hx event hevent id hid
  subst hid
  exact hp.visible_of_write hx hevent

/-- The events of a program declare what its nodes declare. -/
lemma declared_variableEvents (p : Program) :
    p.variableEvents.flatMap VariableEvent.declared = declaredIn [.block p.body] := by
  rw [variableEvents, List.flatMap_assoc, declaredIn, List.flatMap_singleton]
  exact List.flatMap_congr fun n _ => flatMap_declared_variableEvents n

/-- The events of a bound program declare each variable once. -/
lemma Bound.nodup_declared_variableEvents (hp : p.Bound) :
    (p.variableEvents.flatMap VariableEvent.declared).Nodup := by
  rw [declared_variableEvents]
  exact hp.nodup_declaredIn

end Program

/-- **The variables that keep their first value** are those that nothing assigns. Their values are
those of `local` statements, and local functions. -/
theorem Facts.stableInit?_eq_some_iff {replaceable : List String} {p : Program} (hp : p.Bound)
    {id : LocalId} {e : BoundExpr} :
    (Facts.ofProgram replaceable p).locals.stableInit? id = some e ↔
      (p.Initializes id e ∨ ∃ f pos, e = .function f ∧
        .stmt (.localFunction id f pos) ∈ (Node.block p.body).nodes) ∧
      ¬ p.Assigns (.localVar id) := by
  rw [ofProgram, Program.localVariables, Variables.stableInit?_foldl_record
    hp.variableEvents_declaredFirst hp.nodup_declared_variableEvents,
    Program.declare_mem_variableEvents, Program.write_mem_variableEvents]

end ScriptCore
