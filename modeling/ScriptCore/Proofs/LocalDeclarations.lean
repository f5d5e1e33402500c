import ScriptCore.Proofs.Renaming
import ScriptCore.Proofs.Tracking

set_option relaxedAutoImplicit false
set_option autoImplicit false

/-!
# Declarations of locals

The walk that binds the names of a tree numbers the declarations as it meets them, at different
moments: the variables of a `local` statement in front of its values, a loop variable behind the
header of its loop, parameters inside their function. Whatever the moment, each number stands at
one place of the bound tree, in front of all its uses, and the depth that is recorded for it is the
number of function literals around that place.

## Main definitions

* `ScriptCore.Node.within`, `ScriptCore.nesting` — the number of function literals around the nodes
  of a tree.
* `ScriptCore.RecordedAt` — a declaration with the depth that is recorded for it.
* `ScriptCore.RecordsDepth` — the depths a stretch of the walk has recorded.
* `ScriptCore.Program.DeclaresLocals` — what holds of the declarations of a program.

## Main results

* `ScriptCore.bindExpr_records`, `ScriptCore.bindStmt_records` and others — the walk over each kind
  of tree.
* `ScriptCore.Program.Bound.lt_of_use` — uses stand behind declarations.
* `ScriptCore.parseProgram_declaresLocals` — the locals of a source text are declared once, first
  and at their depth.
-/

namespace ScriptCore

/-! ## The function literals around a node -/

/-- The number of function literals around the declarations and the parts of a node with `d` of
them around it: a function literal is around its own parameters and body. -/
def Node.within (d : Nat) : Node Reference LocalId → Nat
  | .expr (.function _) => d + 1
  | _ => d

/-- The rule that counts the function literals around a node. -/
def nesting : Inherited Reference LocalId Nat where
  parts d n := n.children.map fun c => (n.within d, c)
  map_snd_parts d n := by
    rw [List.map_map]
    exact List.map_id _

/-! ## Recorded depths -/

/-- Whether `d` is the depth recorded for a declaration. -/
def RecordedAt (locals : Array LocalDecl) (id : LocalId) (d : Nat) : Prop :=
  ∃ decl, locals[id]? = some decl ∧ decl.depth = d

/-- A recorded depth stays when more declarations are made. -/
lemma RecordedAt.of_isPrefix {xs ys : Array LocalDecl} {id : LocalId} {d : Nat}
    (h : RecordedAt xs id d) (hL : xs.toList <+: ys.toList) : RecordedAt ys id d := by
  obtain ⟨decl, hdecl, hdepth⟩ := h
  exact ⟨decl, getElem?_of_isPrefix hL hdecl, hdepth⟩

/-- **The depths a stretch of the walk from `s` to `s'` has recorded**: `d` for the declarations
`ids` it has made on its own, and for those in the trees `ns` the number of function literals
around them, when there are `d` around the trees. -/
structure RecordsDepth (d : Nat) (s s' : Scopes) (ids : List LocalId)
    (ns : List (Node Reference LocalId)) : Prop where
  locals : s.locals.toList <+: s'.locals.toList
  depth : s'.depth = s.depth
  own : ∀ id ∈ ids, RecordedAt s'.locals id d
  nested : ∀ x ∈ nesting.preorders (ns.map fun n => (d, n)), ∀ id ∈ x.2.declared,
    RecordedAt s'.locals id (x.2.within x.1)

/-- A stretch of the walk that has recorded the depths where it started. -/
abbrev RecordsDepthHere (s s' : Scopes) (ids : List LocalId) (ns : List (Node Reference LocalId)) :
    Prop :=
  RecordsDepth s.depth s s' ids ns

namespace RecordsDepth

variable {d : Nat} {s s₁ s₂ s' : Scopes} {ids ids' : List LocalId}
  {ns ns' : List (Node Reference LocalId)}

/-- Doing nothing. -/
lemma refl (s : Scopes) : RecordsDepthHere s s [] [] where
  locals := List.prefix_rfl
  depth := rfl
  own := nofun
  nested := nofun

/-- **Stretches compose**, since the first one ends at the depth where it started. -/
theorem trans (h : RecordsDepthHere s s₁ ids ns) (h' : RecordsDepthHere s₁ s' ids' ns') :
    RecordsDepthHere s s' (ids ++ ids') (ns ++ ns') where
  locals := h.locals.trans h'.locals
  depth := h'.depth.trans h.depth
  own id hid := by
    rcases List.mem_append.1 hid with hid | hid
    · exact (h.own id hid).of_isPrefix h'.locals
    · exact h.depth ▸ h'.own id hid
  nested x hx id hid := by
    rw [List.map_append, Inherited.preorders_append, List.mem_append] at hx
    rcases hx with hx | hx
    · exact (h.nested x hx id hid).of_isPrefix h'.locals
    · exact h'.nested x (h.depth ▸ hx) id hid

/-- **A node closes over the stretch of its parts**, which has made the declarations of the node
at the depth of its parts. -/
theorem node (h : RecordsDepth d s s' ids ns) (n : Node Reference LocalId) (hids : n.declared = ids)
    (hparts : n.children = ns) (hd : n.within s.depth = d) : RecordsDepthHere s s' [] [n] where
  locals := h.locals
  depth := h.depth
  own := nofun
  nested x hx id hid := by
    rw [List.map_singleton, Inherited.preorders_cons, Inherited.preorders_nil, List.append_nil,
      Inherited.preorder_eq, List.mem_cons] at hx
    rcases hx with rfl | hx
    · exact hd ▸ h.own id (hids ▸ hid)
    · subst hparts hd
      exact h.nested x hx id hid

/-- Leaving the scope that was opened in front of a stretch. -/
lemma exit (h : RecordsDepthHere (Scopes.enter s).2 s₂ ids ns) :
    RecordsDepthHere s (Scopes.exit s₂).2 ids ns where
  locals := h.locals
  depth := h.depth
  own := h.own
  nested := h.nested

/-- Leaving the function that was entered in front of a stretch, which was one function deeper. -/
lemma exitFunction (h : RecordsDepthHere (Scopes.enterFunction s).2 s₂ ids ns) :
    RecordsDepth (s.depth + 1) s (Scopes.exitFunction s₂).2 ids ns where
  locals := h.locals
  depth := by
    show s₂.depth - 1 = s.depth
    rw [h.depth]; rfl
  own := h.own
  nested := h.nested

end RecordsDepth

/-! ## Declarations -/

/-- Declaring a name records the depth of the place. -/
lemma declare_records (s : Scopes) (b : Binder) :
    RecordsDepthHere s (Scopes.declare b s).2 [(Scopes.declare b s).1] [] where
  locals := by
    show s.locals.toList <+: (s.locals.push _).toList
    rw [Array.toList_push]
    exact List.prefix_append _ _
  depth := rfl
  own id hid := by
    obtain rfl := List.mem_singleton.1 hid
    refine ⟨⟨b.name, b.pos, s.depth⟩, ?_, rfl⟩
    show (s.locals.push _)[s.locals.size]? = _
    simp
  nested := nofun

/-- Making a declaration visible declares nothing. -/
lemma bind_records (s : Scopes) (name : String) (id : LocalId) :
    RecordsDepthHere s (Scopes.bind name id s).2 [] [] := by
  obtain ⟨locals, visible, depth⟩ := s
  cases visible <;> exact ⟨List.prefix_rfl, rfl, nofun, nofun⟩

/-- Declaring a name that is visible at once. -/
lemma introduce_records (s : Scopes) (b : Binder) :
    RecordsDepthHere s (Scopes.introduce b s).2 [(Scopes.introduce b s).1] [] :=
  (declare_records s b).trans (bind_records _ _ _)

/-- Declaring names, one after the other. -/
lemma declareAll_records : ∀ (bs : List Binder) (s : Scopes),
    RecordsDepthHere s (bs.mapM Scopes.declare s).2 (bs.mapM Scopes.declare s).1 []
  | [], s => RecordsDepth.refl s
  | b :: bs, s => by
    rw [List.mapM_cons]
    exact (declare_records s b).trans (declareAll_records bs _)

/-- Declaring names that are visible at once, one after the other. -/
lemma introduceAll_records : ∀ (bs : List Binder) (s : Scopes),
    RecordsDepthHere s (bs.mapM Scopes.introduce s).2 (bs.mapM Scopes.introduce s).1 []
  | [], s => RecordsDepth.refl s
  | b :: bs, s => by
    rw [List.mapM_cons]
    exact (introduce_records s b).trans (introduceAll_records bs _)

/-- Making declarations visible, one after the other. -/
lemma bindAll_records : ∀ (bs : List (Binder × LocalId)) (s : Scopes),
    RecordsDepthHere s (bs.forM (fun (b, id) => Scopes.bind b.name id) s).2 [] []
  | [], s => RecordsDepth.refl s
  | b :: bs, s => (bind_records s b.1.name b.2).trans (bindAll_records bs _)

/-! ## The walk over trees -/

section Walk

open RecordsDepth

mutual

/-- **Binding an expression** records the depths of its declarations. -/
theorem bindExpr_records : ∀ (e : RawExpr) (s : Scopes),
    RecordsDepthHere s (bindExpr e s).2 [] [.expr (bindExpr e s).1]
  | .nil _, s | .varargs _, s | .bool .., s | .number .., s | .string .., s | .name .., s => by
    rw [bindExpr]
    exact (RecordsDepth.refl s).node _ rfl rfl rfl
  | .member object member pos, s => by
    rw [bindExpr]
    exact (bindExpr_records object s).node _ rfl rfl rfl
  | .index object key pos, s => by
    rw [bindExpr]
    exact ((bindExpr_records object s).trans (bindExpr_records key _)).node _ rfl rfl rfl
  | .call callee args isMethod pos, s => by
    rw [bindExpr]
    exact ((bindExpr_records callee s).trans (bindExprs_records args _)).node _ rfl rfl rfl
  | .function f, s => by
    rw [bindExpr]
    exact bindFunction_records f s
  | .table items pos, s => by
    rw [bindExpr]
    exact (bindItems_records items s).node _ rfl rfl rfl
  | .unary op operand pos, s => by
    rw [bindExpr]
    exact (bindExpr_records operand s).node _ rfl rfl rfl
  | .binary op left right pos, s => by
    rw [bindExpr]
    exact ((bindExpr_records left s).trans (bindExpr_records right _)).node _ rfl rfl rfl
  | .group inner pos, s => by
    rw [bindExpr]
    exact (bindExpr_records inner s).node _ rfl rfl rfl

/-- Binding expressions records the depths of their declarations. -/
theorem bindExprs_records : ∀ (es : List RawExpr) (s : Scopes),
    RecordsDepthHere s (bindExprs es s).2 [] ((bindExprs es s).1.map Node.expr)
  | [], s => by
    rw [bindExprs]
    exact RecordsDepth.refl s
  | e :: es, s => by
    rw [bindExprs]
    exact (bindExpr_records e s).trans (bindExprs_records es _)

/-- Binding an optional expression records the depths of its declarations. -/
theorem bindOption_records : ∀ (e : Option RawExpr) (s : Scopes),
    RecordsDepthHere s (bindOption e s).2 [] ((bindOption e s).1.toList.map Node.expr)
  | none, s => by
    rw [bindOption]
    exact RecordsDepth.refl s
  | some e, s => by
    rw [bindOption]
    exact bindExpr_records e s

/-- Binding an item of a table constructor records the depths of its declarations. -/
theorem bindItem_records : ∀ (i : Item String Binder) (s : Scopes),
    RecordsDepthHere s (bindItem i s).2 [] [.item (bindItem i s).1]
  | .positional value, s => by
    rw [bindItem]
    exact (bindExpr_records value s).node _ rfl rfl rfl
  | .named name value, s => by
    rw [bindItem]
    exact (bindExpr_records value s).node _ rfl rfl rfl
  | .keyed key value, s => by
    rw [bindItem]
    exact ((bindExpr_records key s).trans (bindExpr_records value _)).node _ rfl rfl rfl

/-- Binding items records the depths of their declarations. -/
theorem bindItems_records : ∀ (is : List (Item String Binder)) (s : Scopes),
    RecordsDepthHere s (bindItems is s).2 [] ((bindItems is s).1.map Node.item)
  | [], s => by
    rw [bindItems]
    exact RecordsDepth.refl s
  | i :: is, s => by
    rw [bindItems]
    exact (bindItem_records i s).trans (bindItems_records is _)

/-- **Binding a function** records the depths of its declarations: its parameters and its body are
one function deeper. -/
theorem bindFunction_records : ∀ (f : RawFunction) (s : Scopes),
    RecordsDepthHere s (bindFunction f s).2 [] [.expr (.function (bindFunction f s).1)]
  | .mk params variadic body pos, s => by
    rw [bindFunction]
    have hp := introduceAll_records params (Scopes.enterFunction s).2
    have hb := bindBody_records body (params.mapM Scopes.introduce (Scopes.enterFunction s).2).2
    exact (hp.trans hb).exitFunction.node _ (List.append_nil _).symm rfl rfl

/-- **Binding a statement** records the depths of its declarations. -/
theorem bindStmt_records : ∀ (st : RawStmt) (s : Scopes),
    RecordsDepthHere s (bindStmt st s).2 [] [.stmt (bindStmt st s).1]
  | .localVars vars values pos, s => by
    rw [bindStmt]
    have hvalues := (declareAll_records vars s).trans (bindExprs_records values _)
    have h := hvalues.trans (bindAll_records (vars.zip (vars.mapM Scopes.declare s).1) _)
    exact h.node _ ((List.append_nil _).trans (List.append_nil _)).symm (List.append_nil _).symm rfl
  | .localFunction var f pos, s => by
    rw [bindStmt]
    exact ((introduce_records s var).trans (bindFunction_records f _)).node _ rfl rfl rfl
  | .functionDecl target f pos, s => by
    rw [bindStmt]
    exact ((bindExpr_records target s).trans (bindFunction_records f _)).node _ rfl rfl rfl
  | .assign targets values pos, s => by
    rw [bindStmt]
    exact ((bindExprs_records targets s).trans (bindExprs_records values _)).node _ rfl rfl rfl
  | .compound op target value pos, s => by
    rw [bindStmt]
    exact ((bindExpr_records target s).trans (bindExpr_records value _)).node _ rfl rfl rfl
  | .expr e, s => by
    rw [bindStmt]
    exact (bindExpr_records e s).node _ rfl rfl rfl
  | .block body, s => by
    rw [bindStmt]
    exact (bindBlock_records body s).node _ rfl rfl rfl
  | .conditional condition body rest pos, s => by
    rw [bindStmt]
    have hbody := (bindExpr_records condition s).trans (bindBlock_records body _)
    exact (hbody.trans (bindAlternative_records rest _)).node _ rfl rfl rfl
  | .whileLoop condition body pos, s => by
    rw [bindStmt]
    exact ((bindExpr_records condition s).trans (bindBlock_records body _)).node _ rfl rfl rfl
  | .repeatLoop body condition pos, s => by
    rw [bindStmt]
    have hb := bindBody_records body (Scopes.enter s).2
    exact (hb.trans (bindExpr_records condition _)).exit.node _ rfl rfl rfl
  | .numericFor var start limit step body pos, s => by
    rw [bindStmt]
    have hlimit := (bindExpr_records start s).trans (bindExpr_records limit _)
    have hheader := hlimit.trans (bindOption_records step _)
    have h := hheader.trans (exit ((introduce_records _ var).trans (bindBlock_records body _)))
    exact h.node _ rfl rfl rfl
  | .genericFor vars values body pos, s => by
    rw [bindStmt]
    have hheader := bindExprs_records values s
    have h := hheader.trans (exit ((introduceAll_records vars _).trans (bindBlock_records body _)))
    exact h.node _ (List.append_nil _).symm rfl rfl
  | .ret values pos, s => by
    rw [bindStmt]
    exact (bindExprs_records values s).node _ rfl rfl rfl
  | .leave pos, s => by
    rw [bindStmt]
    exact (RecordsDepth.refl s).node _ rfl rfl rfl

/-- Binding statements records the depths of their declarations. -/
theorem bindStmts_records : ∀ (ss : List RawStmt) (s : Scopes),
    RecordsDepthHere s (bindStmts ss s).2 [] ((bindStmts ss s).1.map Node.stmt)
  | [], s => by
    rw [bindStmts]
    exact RecordsDepth.refl s
  | st :: ss, s => by
    rw [bindStmts]
    exact (bindStmt_records st s).trans (bindStmts_records ss _)

/-- Binding the rest of a conditional records the depths of its declarations. -/
theorem bindAlternative_records : ∀ (a : Alternative String Binder) (s : Scopes),
    RecordsDepthHere s (bindAlternative a s).2 [] (bindAlternative a s).1.children
  | .none, s => by
    rw [bindAlternative]
    exact RecordsDepth.refl s
  | .otherwise body, s => by
    rw [bindAlternative]
    exact bindBlock_records body s
  | .elseIf condition body rest, s => by
    rw [bindAlternative]
    have hbody := (bindExpr_records condition s).trans (bindBlock_records body _)
    exact hbody.trans (bindAlternative_records rest _)

/-- Binding the body of a function or of a `repeat` loop records the depths of its declarations. -/
theorem bindBody_records : ∀ (b : RawBlock) (s : Scopes),
    RecordsDepthHere s (bindBody b s).2 [] [.block (bindBody b s).1]
  | .mk pos stmts, s => by
    rw [bindBody]
    exact (bindStmts_records stmts s).node _ rfl rfl rfl

/-- **Binding a block** records the depths of its declarations. -/
theorem bindBlock_records : ∀ (b : RawBlock) (s : Scopes),
    RecordsDepthHere s (bindBlock b s).2 [] [.block (bindBlock b s).1]
  | .mk pos stmts, s => by
    rw [bindBlock]
    exact (bindStmts_records stmts (Scopes.enter s).2).exit.node _ rfl rfl rfl

end

end Walk

/-! ## Programs -/

namespace Program

/-- The depth of a declaration of a program is the number of function literals around its place. -/
lemma ofBlock_recordedAt (body : RawBlock) :
    ∀ x ∈ nesting.preorder 0 (.block (ofBlock body).body), ∀ id ∈ x.2.declared,
      RecordedAt (ofBlock body).locals id (x.2.within x.1) := by
  have h := (bindBlock_records body Scopes.empty).nested
  rw [List.map_singleton, Inherited.preorders_cons, Inherited.preorders_nil,
    List.append_nil] at h
  exact h

namespace Bound

variable {p : Program}

/-- **A use of a local is met behind a declaration of it.** -/
lemma mem_declared_of_use (hp : p.Bound) {j : Nat} {id : LocalId} {pos : Position}
    (huse : (Node.block p.body).nodes[j]? = some (.expr (.name (.localVar id) pos))) :
    id ∈ ((Node.block p.body).nodes.take j).flatMap Node.declared := by
  rw [← p.map_snd_scopedNodes, List.getElem?_map, Option.map_eq_some_iff] at huse
  obtain ⟨x, hx, hname⟩ := huse
  have hmem : x ∈ p.scopedNodes := List.mem_of_getElem? hx
  have hsees : ∃ b ∈ x.1, b.2 = id :=
    ((hp.nodes x hmem).resolves _ pos hname).exists_mem
  -- the walk of the scoping rules up to the use has made all the declarations visible there
  have hfirst := scopedNodes_declaredFirst p
  obtain ⟨hlt, hget⟩ := List.getElem?_eq_some_iff.1 hx
  rw [NodesDeclaredFirst, ← List.take_append_drop j p.scopedNodes, List.drop_eq_getElem_cons hlt,
    hget, DeclaredFirst.append_iff] at hfirst
  have hknown := hfirst.2.1 id hsees
  rwa [List.nil_append, ← List.flatMap_map, List.map_take, p.map_snd_scopedNodes] at hknown

/-- **Uses stand behind declarations**: a node that declares a local is met before every use. -/
lemma lt_of_use (hp : p.Bound) {i j : Nat} {n : Node Reference LocalId} {id : LocalId}
    {pos : Position} (hn : (Node.block p.body).nodes[i]? = some n) (hid : id ∈ n.declared)
    (huse : (Node.block p.body).nodes[j]? = some (.expr (.name (.localVar id) pos))) : i < j := by
  by_contra hle
  -- otherwise the local is declared both before the use and from it on
  have hbefore := hp.mem_declared_of_use huse
  have hdrop : n ∈ (Node.block p.body).nodes.drop j := by
    refine List.mem_of_getElem? (i := i - j) ?_
    rw [List.getElem?_drop, Nat.add_sub_cancel' (not_lt.1 hle)]
    exact hn
  have hbehind : id ∈ ((Node.block p.body).nodes.drop j).flatMap Node.declared :=
    List.mem_flatMap.2 ⟨n, hdrop, hid⟩
  have hnodup := hp.nodup_declaredIn
  rw [declaredIn, List.flatMap_singleton, ← List.take_append_drop j (Node.block p.body).nodes,
    List.flatMap_append] at hnodup
  exact (List.disjoint_of_nodup_append hnodup) hbefore hbehind

end Bound

/-- **What holds of the declarations of a program.** -/
structure DeclaresLocals (p : Program) : Prop where
  /-- Every local stands at one place that declares it. -/
  once : ∀ id < p.locals.size, (declaredIn [.block p.body]).count id = 1
  /-- Nothing else is declared. -/
  declared_lt : ∀ id ∈ declaredIn [.block p.body], id < p.locals.size
  /-- Nothing else is used. -/
  used_lt : ∀ id pos, Node.expr (.name (.localVar id) pos) ∈ (Node.block p.body).nodes →
    id < p.locals.size
  /-- In the order of the nodes, the place that declares a local is before all its uses. -/
  first : ∀ (i j : Nat) (n : Node Reference LocalId) (id : LocalId) (pos : Position),
    (Node.block p.body).nodes[i]? = some n → id ∈ n.declared →
    (Node.block p.body).nodes[j]? = some (.expr (.name (.localVar id) pos)) → i < j
  /-- The depth of a local is the number of function literals around the place that declares it,
  where those around a parameter include its own function. -/
  depth : ∀ x ∈ nesting.preorder 0 (.block p.body), ∀ id ∈ x.2.declared,
    ∃ decl, p.locals[id]? = some decl ∧ decl.depth = x.2.within x.1

end Program

/-- **Every local of a source text is declared once, before its uses and at its depth.**

**Proof sketch.** The walk that binds the names numbers the declarations one after the other and
puts each number at one place, and it counts the functions it is in. A use refers to a visible
declaration, and what is visible at a node has been declared by the nodes before it. -/
theorem parseProgram_declaresLocals {source : String} {p : Program}
    (h : parseProgram source = .ok p) : p.DeclaresLocals := by
  obtain ⟨tokens, body, -, -, rfl⟩ := parseProgram_eq_ok h
  have hbound := Program.ofBlock_bound body
  refine ⟨fun id hid => ?_, fun id hid => hbound.mem_declaredIn_iff.1 hid,
    fun id pos huse => ?_, fun i j n id pos => hbound.lt_of_use,
    Program.ofBlock_recordedAt body⟩
  · exact List.count_eq_one_of_mem hbound.nodup_declaredIn (hbound.mem_declaredIn_iff.2 hid)
  · obtain ⟨j, hj⟩ := List.mem_iff_getElem?.1 huse
    obtain ⟨n, hn, hid⟩ := List.mem_flatMap.1 (hbound.mem_declared_of_use hj)
    rw [← hbound.mem_declaredIn_iff, declaredIn, List.flatMap_singleton]
    exact List.mem_flatMap.2 ⟨n, List.mem_of_mem_take hn, hid⟩

/-- The program of `function t:m(a) for i = a, self do local function f(b) return i end end end`. -/
def nestedFunctions : Program where
  body := .mk ⟨1, 1⟩ [
    .functionDecl (.member (.name (.globalVar "t") ⟨1, 10⟩) "m" ⟨1, 1⟩)
      (.mk [0, 1] false (.mk ⟨1, 17⟩ [
        .numericFor 2 (.name (.localVar 1) ⟨1, 25⟩) (.name (.localVar 0) ⟨1, 28⟩) none
          (.mk ⟨1, 36⟩ [
            .localFunction 3
              (.mk [4] false (.mk ⟨1, 56⟩ [.ret [.name (.localVar 2) ⟨1, 63⟩] ⟨1, 56⟩]) ⟨1, 36⟩)
              ⟨1, 36⟩])
          ⟨1, 17⟩]) ⟨1, 1⟩)
      ⟨1, 1⟩]
  locals := #[⟨"self", ⟨1, 1⟩, 1⟩, ⟨"a", ⟨1, 14⟩, 1⟩, ⟨"i", ⟨1, 21⟩, 1⟩, ⟨"f", ⟨1, 51⟩, 1⟩,
    ⟨"b", ⟨1, 53⟩, 2⟩]

theorem nestedFunctions_declaresLocals :
    parseProgram "function t:m(a) for i = a, self do local function f(b) return i end end end" =
      .ok nestedFunctions ∧ nestedFunctions.DeclaresLocals := by
  have hparse : parseProgram
      "function t:m(a) for i = a, self do local function f(b) return i end end end" =
        .ok nestedFunctions := by cbv
  exact ⟨hparse, parseProgram_declaresLocals hparse⟩

end ScriptCore
