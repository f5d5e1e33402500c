import ScriptCore.Proofs.Scoping

set_option relaxedAutoImplicit false
set_option autoImplicit false

/-!
# Binding follows the scoping rules

The walk that binds the names of a tree keeps a stack of scopes and numbers declarations as it
meets them. A single relation says what a stretch of the walk has done: which declarations it has
made on its own, what is visible behind it, and which trees it has produced with what is visible
there. Stretches compose, and a node closes over the stretch of its parts.

## Main definitions

* `ScriptCore.Scopes.sight` — what is visible in a state of the walk.
* `ScriptCore.Scopes.Sound` — every visible name stands for a declaration of that name.
* `ScriptCore.WellBound` — what holds at each node of a bound tree.
* `ScriptCore.Binds` — what a stretch of the walk has done.
* `ScriptCore.Program.Bound` — what holds of a bound program.

## Main results

* `ScriptCore.bindExpr_binds`, `ScriptCore.bindStmt_binds` and others — the walk over each kind
  of tree.
* `ScriptCore.Program.ofBlock_bound` — the walk over a program.
-/

namespace ScriptCore

/-! ## States of the walk -/

namespace Scopes

/-- What is visible in a state of the walk. -/
def sight (s : Scopes) : Visible := s.visible.flatten

/-- A state in which a scope is open and every visible name stands for a declaration of that
name. -/
structure Sound (s : Scopes) : Prop where
  isOpen : s.visible ≠ []
  named : ∀ b ∈ s.sight, ∃ d, s.locals[b.2]? = some d ∧ d.name = b.1

/-- A name stands for its latest binding in the innermost scope that has one. -/
lemma lookup_eq (s : Scopes) (name : String) : s.lookup name = s.sight.lookup name := by
  rw [lookup, sight]
  induction s.visible with
  | nil => rfl
  | cons scope rest ih =>
    rw [List.findSome?_cons, List.flatten_cons, List.lookup_append, ih]
    cases scope.lookup name <;> rfl

lemma Sound.enter {s : Scopes} (h : s.Sound) : (enter s).2.Sound where
  isOpen := List.cons_ne_nil _ _
  named := h.named

/-- Visible declarations have been made before. -/
lemma Sound.lt_size {s : Scopes} (h : s.Sound) : ∀ b ∈ s.sight, b.2 < s.locals.size := by
  intro b hb
  obtain ⟨d, hd, -⟩ := h.named b hb
  exact (Array.getElem?_eq_some_iff.1 hd).1

/-- What a name stands for is a declaration of that name. -/
lemma Sound.named_of_lookup {s : Scopes} (h : s.Sound) {name : String} {id : LocalId}
    (hid : s.lookup name = some id) : ∃ d, s.locals[id]? = some d ∧ d.name = name := by
  rw [lookup_eq] at hid
  obtain ⟨front, rest, hsplit, -⟩ := List.lookup_eq_some_iff.1 hid
  refine h.named (name, id) ?_
  rw [hsplit]
  exact List.mem_append_right _ List.mem_cons_self

end Scopes

/-- Declarations stay under their numbers when more are made. -/
lemma getElem?_of_isPrefix {xs ys : Array LocalDecl} (h : xs.toList <+: ys.toList) {i : Nat}
    {d : LocalDecl} (hd : xs[i]? = some d) : ys[i]? = some d := by
  rw [← Array.getElem?_toList] at hd ⊢
  obtain ⟨zs, hzs⟩ := h
  rw [← hzs, List.getElem?_append_left (List.getElem?_eq_some_iff.1 hd).1, hd]

/-! ## What a stretch of the walk has done -/

/-- **What holds at each node of a bound tree**: a use of a name refers to what the scoping rules
say, and declarations are newer than everything visible. -/
structure WellBound (locals : Array LocalDecl) (x : Visible × Node Reference LocalId) : Prop where
  resolves : ∀ ref pos, x.2 = .expr (.name ref pos) → x.1.Resolves locals ref
  newer : ∀ id ∈ x.2.declared, ∀ b ∈ x.1, b.2 < id

/-- **What a stretch of the walk from `s` to `s'` has done**: it has declared `ids` on its own and
produced the trees `ts`, and it has changed what is visible by `after`. Both may depend on the
declarations of the whole program, which extend those of `s'`. -/
structure Binds (s s' : Scopes) (ids : List LocalId)
    (after : Array LocalDecl → Visible → Visible)
    (ts : Array LocalDecl → Visible → List (Visible × Node Reference LocalId)) : Prop where
  locals : s.locals.toList <+: s'.locals.toList
  outer : s'.visible.tail = s.visible.tail
  depth : s'.depth = s.depth
  sound : s'.Sound
  sight : ∀ L : Array LocalDecl, s'.locals.toList <+: L.toList → s'.sight = after L s.sight
  wellBound : ∀ L : Array LocalDecl, s'.locals.toList <+: L.toList →
    ∀ x ∈ (scoping L).preorders (ts L s.sight), WellBound L x
  declared : ∀ L v, (ids ++ declaredIn ((ts L v).map Prod.snd)).Perm
    (List.Ico s.locals.size s'.locals.size)

/-- A stretch of the walk that leaves what is visible and has produced trees in the place it
started from. -/
abbrev BindsHere (s s' : Scopes) (ns : List (Node Reference LocalId)) : Prop :=
  Binds s s' [] (fun _ v => v) (fun _ v => ns.map fun n => (v, n))

namespace Binds

variable {s s₁ s' : Scopes} {ids ids' : List LocalId}
  {after after' : Array LocalDecl → Visible → Visible}
  {ts ts' : Array LocalDecl → Visible → List (Visible × Node Reference LocalId)}

/-- Doing nothing. -/
lemma refl (hs : s.Sound) : Binds s s [] (fun _ v => v) (fun _ _ => []) where
  locals := List.prefix_rfl
  outer := rfl
  depth := rfl
  sound := hs
  sight _ _ := rfl
  wellBound _ _ x hx := absurd hx List.not_mem_nil
  declared _ _ := by simp

lemma size_le (h : Binds s s' ids after ts) : s.locals.size ≤ s'.locals.size := h.locals.length_le

/-- **Stretches compose.** The second one starts from what is visible behind the first. -/
theorem trans (h : Binds s s₁ ids after ts) (h' : Binds s₁ s' ids' after' ts') :
    Binds s s' (ids ++ ids') (fun L v => after' L (after L v))
      (fun L v => ts L v ++ ts' L (after L v)) where
  locals := h.locals.trans h'.locals
  outer := h'.outer.trans h.outer
  depth := h'.depth.trans h.depth
  sound := h'.sound
  sight L hL := by rw [h'.sight L hL, h.sight L (h'.locals.trans hL)]
  wellBound L hL x hx := by
    rw [Inherited.preorders_append, List.mem_append, ← h.sight L (h'.locals.trans hL)] at hx
    rcases hx with hx | hx
    · exact h.wellBound L (h'.locals.trans hL) x hx
    · exact h'.wellBound L hL x hx
  declared L v := by
    have h₁ := h.declared L v
    have h₂ := h'.declared L (after L v)
    rw [← List.Ico.append_consecutive h.size_le h'.size_le]
    refine List.Perm.trans ?_ (h₁.append h₂)
    rw [List.map_append, declaredIn_append, List.append_assoc, List.append_assoc]
    refine List.Perm.append_left ids ?_
    rw [← List.append_assoc, ← List.append_assoc]
    exact List.perm_append_comm.append_right _

/-- **A node closes over the stretch of its parts**, which has made the declarations of the node. -/
theorem node (h : Binds s s' ids after ts) (hs : s.Sound) (n : Node Reference LocalId)
    (hids : n.declared = ids) (hparts : ∀ L v, n.scoped L v = ts L v)
    (hname : ∀ ref pos, n ≠ .expr (.name ref pos)) :
    Binds s s' [] after (fun _ v => [(v, n)]) where
  locals := h.locals
  outer := h.outer
  depth := h.depth
  sound := h.sound
  sight := h.sight
  wellBound L hL x hx := by
    rw [Inherited.preorders_cons, Inherited.preorders_nil, List.append_nil,
      Inherited.preorder_eq, List.mem_cons] at hx
    rcases hx with rfl | hx
    · refine ⟨fun ref pos heq => absurd heq (hname ref pos), fun id hid b hb => ?_⟩
      -- the declarations of `n` are new in this stretch
      have hnew : id ∈ List.Ico s.locals.size s'.locals.size :=
        (h.declared L s.sight).subset (List.mem_append_left _ (hids ▸ hid))
      exact lt_of_lt_of_le (hs.lt_size b hb) (List.Ico.mem.1 hnew).1
    · have hx' : x ∈ (scoping L).preorders (ts L s.sight) := by
        rw [← hparts]; exact hx
      exact h.wellBound L hL x hx'
  declared L v := by
    have hchildren : (ts L v).map Prod.snd = n.children := by
      rw [← hparts, Node.map_snd_scoped]
    have hdeclared := h.declared L v
    rw [hchildren, ← hids] at hdeclared
    rw [List.nil_append, List.map_singleton, declaredIn_singleton]
    exact hdeclared

/-- A use of a name. -/
lemma name (hs : s.Sound) (n : String) (pos : Position) :
    BindsHere s s [.expr (.name (s.reference n) pos)] where
  locals := List.prefix_rfl
  outer := rfl
  depth := rfl
  sound := hs
  sight _ _ := rfl
  wellBound L hL x hx := by
    have hx : x = (s.sight, .expr (.name (s.reference n) pos)) := by
      simpa [Inherited.preorder_eq, scoping, Node.scoped, Node.children, Expr.children] using hx
    subst hx
    refine ⟨fun ref pos' heq => ?_, fun id hid => absurd hid List.not_mem_nil⟩
    cases heq
    rw [Scopes.reference]
    rcases h : s.lookup n with _ | id
    · exact (Scopes.lookup_eq s n).symm.trans h
    · obtain ⟨d, hd, hdn⟩ := hs.named_of_lookup h
      refine ⟨d, getElem?_of_isPrefix hL hd, ?_⟩
      rw [hdn]
      exact (Scopes.lookup_eq s n).symm.trans h
  declared L v := by
    simp [declaredIn, Node.nodes_eq, Node.children, Expr.children, Node.declared]

/-- **A scope is closed behind a stretch** that started in a new one. -/
theorem scope {s₂ : Scopes} (h : Binds s₁ s₂ ids after ts) (hs : s.Sound)
    (hopen : s₁.visible = [] :: s.visible) (hlocals : s₁.locals = s.locals)
    (hclose : s'.visible = s₂.visible.tail) (hlocals' : s'.locals = s₂.locals)
    (hdepth : s'.depth = s.depth) :
    Binds s s' ids (fun _ v => v) ts := by
  have hgrow : s.locals.toList <+: s'.locals.toList := by
    rw [← hlocals, hlocals']; exact h.locals
  have hvisible : s'.visible = s.visible := by
    rw [hclose, h.outer, hopen, List.tail_cons]
  have hsight : s'.sight = s.sight := by
    rw [Scopes.sight, hvisible, Scopes.sight]
  have hsight₁ : s₁.sight = s.sight := by
    rw [Scopes.sight, hopen, List.flatten_cons, List.nil_append, Scopes.sight]
  refine ⟨hgrow, by rw [hvisible], hdepth, ⟨by rw [hvisible]; exact hs.isOpen, ?_⟩,
    fun _ _ => hsight, ?_, ?_⟩
  · intro b hb
    obtain ⟨d, hd, hdn⟩ := hs.named b (hsight ▸ hb)
    exact ⟨d, getElem?_of_isPrefix hgrow hd, hdn⟩
  · rw [← hsight₁, hlocals']; exact h.wellBound
  · rw [← hlocals, hlocals']; exact h.declared

/-- Leaving the scope that was opened in front of a stretch. -/
lemma exit {s₂ : Scopes} (h : Binds (Scopes.enter s).2 s₂ ids after ts) (hs : s.Sound) :
    Binds s (Scopes.exit s₂).2 ids (fun _ v => v) ts :=
  h.scope hs rfl rfl rfl rfl h.depth

/-- Leaving the function that was entered in front of a stretch. -/
lemma exitFunction {s₂ : Scopes} (h : Binds (Scopes.enterFunction s).2 s₂ ids after ts)
    (hs : s.Sound) : Binds s (Scopes.exitFunction s₂).2 ids (fun _ v => v) ts :=
  h.scope hs rfl rfl rfl rfl (by
    show s₂.depth - 1 = s.depth
    rw [h.depth]; rfl)

end Binds

/-! ## Declarations -/

/-- Declaring a name numbers it, and makes nothing visible. -/
lemma declare_binds {s : Scopes} (hs : s.Sound) (b : Binder) :
    Binds s (Scopes.declare b s).2 [(Scopes.declare b s).1] (fun _ v => v) (fun _ _ => []) where
  locals := by
    show s.locals.toList <+: (s.locals.push _).toList
    rw [Array.toList_push]
    exact List.prefix_append _ _
  outer := rfl
  depth := rfl
  sound := by
    refine ⟨hs.isOpen, fun x hx => ?_⟩
    obtain ⟨d, hd, hdn⟩ := hs.named x hx
    refine ⟨d, ?_, hdn⟩
    show (s.locals.push _)[x.2]? = some d
    rw [Array.getElem?_push, if_neg (hs.lt_size x hx).ne, hd]
  sight _ _ := rfl
  wellBound _ _ x hx := absurd hx List.not_mem_nil
  declared _ _ := by
    show [s.locals.size].Perm (List.Ico s.locals.size (s.locals.push _).size)
    rw [Array.size_push, List.Ico.succ_singleton]

/-- Making a declaration visible under its name. -/
lemma bind_binds {s : Scopes} (hs : s.Sound) {name : String} {id : LocalId}
    (hid : ∃ d, s.locals[id]? = some d ∧ d.name = name) :
    Binds s (Scopes.bind name id s).2 [] (fun L v => v.bind L id) (fun _ _ => []) := by
  obtain ⟨scope, rest, hv⟩ := List.exists_cons_of_ne_nil hs.isOpen
  have hrun : (Scopes.bind name id s).2 = { s with visible := ((name, id) :: scope) :: rest } := by
    obtain ⟨locals, visible, depth⟩ := s
    dsimp only at hv
    subst hv
    rfl
  have hsight : (Scopes.bind name id s).2.sight = (name, id) :: s.sight := by
    rw [hrun, Scopes.sight, Scopes.sight, hv]; rfl
  obtain ⟨d, hd, hdn⟩ := hid
  constructor
  · have hlocals : (Scopes.bind name id s).2.locals = s.locals := by rw [hrun]
    exact hlocals ▸ List.prefix_rfl
  · rw [hrun, hv]; rfl
  · rw [hrun]
  · refine ⟨by rw [hrun]; exact List.cons_ne_nil _ _, fun x hx => ?_⟩
    rw [hsight, List.mem_cons] at hx
    rw [hrun]
    rcases hx with rfl | hx
    · exact ⟨d, hd, hdn⟩
    · exact hs.named x hx
  · intro L hL
    rw [hrun] at hL
    rw [hsight, Visible.bind, getElem?_of_isPrefix hL hd]
    simp [hdn]
  · exact fun _ _ x hx => absurd hx List.not_mem_nil
  · intro _ _
    rw [hrun]
    simp

/-- A name just declared can be made visible. -/
lemma named_declare (s : Scopes) (b : Binder) :
    ∃ d, (Scopes.declare b s).2.locals[(Scopes.declare b s).1]? = some d ∧ d.name = b.name := by
  refine ⟨⟨b.name, b.pos, s.depth⟩, ?_, rfl⟩
  show (s.locals.push _)[s.locals.size]? = _
  simp

/-- Declaring a name that is visible at once. -/
lemma introduce_binds {s : Scopes} (hs : s.Sound) (b : Binder) :
    Binds s (Scopes.introduce b s).2 [(Scopes.introduce b s).1]
      (fun L v => v.bind L (Scopes.introduce b s).1) (fun _ _ => []) :=
  (declare_binds hs b).trans (bind_binds (declare_binds hs b).sound (named_declare s b))

/-- Declaring names that are visible at once, one after the other. -/
lemma introduceAll_binds : ∀ (bs : List Binder) {s : Scopes}, s.Sound →
    Binds s (bs.mapM Scopes.introduce s).2 (bs.mapM Scopes.introduce s).1
      (fun L v => v.bindAll L (bs.mapM Scopes.introduce s).1) (fun _ _ => [])
  | [], s, hs => Binds.refl hs
  | b :: bs, s, hs => by
    rw [List.mapM_cons]
    have hb := introduce_binds hs b
    exact hb.trans (introduceAll_binds bs hb.sound)

/-- Declaring names, one after the other. -/
lemma declareAll_binds : ∀ (bs : List Binder) {s : Scopes}, s.Sound →
    Binds s (bs.mapM Scopes.declare s).2 (bs.mapM Scopes.declare s).1 (fun _ v => v)
      (fun _ _ => [])
  | [], s, hs => Binds.refl hs
  | b :: bs, s, hs => by
    rw [List.mapM_cons]
    have hb := declare_binds hs b
    exact hb.trans (declareAll_binds bs hb.sound)

/-- Whether the declarations `ids` have the names of `bs`, one by one. -/
abbrev DeclaredAs (s : Scopes) (bs : List Binder) (ids : List LocalId) : Prop :=
  List.Forall₂ (fun b id => ∃ d, s.locals[id]? = some d ∧ d.name = b.name) bs ids

/-- Declarations keep their names when more are made. -/
lemma DeclaredAs.of_isPrefix {s s' : Scopes} {bs : List Binder} {ids : List LocalId}
    (h : DeclaredAs s bs ids) (hL : s.locals.toList <+: s'.locals.toList) :
    DeclaredAs s' bs ids := by
  refine h.imp fun b id hid => ?_
  obtain ⟨d, hd, hdn⟩ := hid
  exact ⟨d, getElem?_of_isPrefix hL hd, hdn⟩

/-- Names just declared can be made visible. -/
lemma named_declareAll : ∀ (bs : List Binder) {s : Scopes}, s.Sound →
    DeclaredAs (bs.mapM Scopes.declare s).2 bs (bs.mapM Scopes.declare s).1
  | [], _, _ => .nil
  | b :: bs, s, hs => by
    rw [List.mapM_cons]
    have hb := declare_binds hs b
    obtain ⟨d, hd, hdn⟩ := named_declare s b
    refine .cons ⟨d, ?_, hdn⟩ (named_declareAll bs hb.sound)
    exact getElem?_of_isPrefix (declareAll_binds bs hb.sound).locals hd

/-- Making declarations visible, one after the other. -/
lemma bindAll_binds : ∀ (bs : List Binder) (ids : List LocalId) {s : Scopes}, s.Sound →
    DeclaredAs s bs ids →
    Binds s ((bs.zip ids).forM (fun (b, id) => Scopes.bind b.name id) s).2 []
      (fun L v => v.bindAll L ids) (fun _ _ => [])
  | [], [], s, hs, _ => Binds.refl hs
  | b :: bs, id :: ids, s, hs, .cons hid hids => by
    have hb := bind_binds hs hid
    exact hb.trans (bindAll_binds bs ids hb.sound (DeclaredAs.of_isPrefix hids hb.locals))

/-! ## The walk over trees -/

section Walk

open Binds

mutual

/-- **Binding an expression** leaves what is visible. -/
theorem bindExpr_binds : ∀ (e : RawExpr) {s : Scopes}, s.Sound →
    BindsHere s (bindExpr e s).2 [.expr (bindExpr e s).1]
  | .nil _, _, hs | .varargs _, _, hs | .bool .., _, hs | .number .., _, hs
  | .string .., _, hs => by
    rw [bindExpr]
    exact (Binds.refl hs).node hs _ rfl (fun _ _ => rfl) nofun
  | .name n pos, s, hs => by
    rw [bindExpr]
    exact name hs n pos
  | .member object member pos, s, hs => by
    rw [bindExpr]
    exact (bindExpr_binds object hs).node hs _ rfl (fun _ _ => rfl) nofun
  | .index object key pos, s, hs => by
    rw [bindExpr]
    have ho := bindExpr_binds object hs
    exact (ho.trans (bindExpr_binds key ho.sound)).node hs _ rfl (fun _ _ => rfl) nofun
  | .call callee args isMethod pos, s, hs => by
    rw [bindExpr]
    have hc := bindExpr_binds callee hs
    exact (hc.trans (bindExprs_binds args hc.sound)).node hs _ rfl (fun _ _ => rfl) nofun
  | .function f, s, hs => by
    rw [bindExpr]
    exact bindFunction_binds f hs
  | .table items pos, s, hs => by
    rw [bindExpr]
    exact (bindItems_binds items hs).node hs _ rfl (fun _ _ => rfl) nofun
  | .unary op operand pos, s, hs => by
    rw [bindExpr]
    exact (bindExpr_binds operand hs).node hs _ rfl (fun _ _ => rfl) nofun
  | .binary op left right pos, s, hs => by
    rw [bindExpr]
    have hl := bindExpr_binds left hs
    exact (hl.trans (bindExpr_binds right hl.sound)).node hs _ rfl (fun _ _ => rfl) nofun
  | .group inner pos, s, hs => by
    rw [bindExpr]
    exact (bindExpr_binds inner hs).node hs _ rfl (fun _ _ => rfl) nofun

/-- Binding expressions leaves what is visible. -/
theorem bindExprs_binds : ∀ (es : List RawExpr) {s : Scopes}, s.Sound →
    BindsHere s (bindExprs es s).2 ((bindExprs es s).1.map Node.expr)
  | [], s, hs => by
    rw [bindExprs]
    exact Binds.refl hs
  | e :: es, s, hs => by
    rw [bindExprs]
    have he := bindExpr_binds e hs
    exact he.trans (bindExprs_binds es he.sound)

/-- Binding an optional expression leaves what is visible. -/
theorem bindOption_binds : ∀ (e : Option RawExpr) {s : Scopes}, s.Sound →
    BindsHere s (bindOption e s).2 ((bindOption e s).1.toList.map Node.expr)
  | none, s, hs => by
    rw [bindOption]
    exact Binds.refl hs
  | some e, s, hs => by
    rw [bindOption]
    exact bindExpr_binds e hs

/-- Binding an item of a table constructor leaves what is visible. -/
theorem bindItem_binds : ∀ (i : Item String Binder) {s : Scopes}, s.Sound →
    BindsHere s (bindItem i s).2 [.item (bindItem i s).1]
  | .positional value, s, hs => by
    rw [bindItem]
    exact (bindExpr_binds value hs).node hs _ rfl (fun _ _ => rfl) nofun
  | .named name value, s, hs => by
    rw [bindItem]
    exact (bindExpr_binds value hs).node hs _ rfl (fun _ _ => rfl) nofun
  | .keyed key value, s, hs => by
    rw [bindItem]
    have hk := bindExpr_binds key hs
    exact (hk.trans (bindExpr_binds value hk.sound)).node hs _ rfl (fun _ _ => rfl) nofun

/-- Binding items leaves what is visible. -/
theorem bindItems_binds : ∀ (is : List (Item String Binder)) {s : Scopes}, s.Sound →
    BindsHere s (bindItems is s).2 ((bindItems is s).1.map Node.item)
  | [], s, hs => by
    rw [bindItems]
    exact Binds.refl hs
  | i :: is, s, hs => by
    rw [bindItems]
    have hi := bindItem_binds i hs
    exact hi.trans (bindItems_binds is hi.sound)

/-- **Binding a function** leaves what is visible around it: the parameters are visible in the
body, in a scope of their own. -/
theorem bindFunction_binds : ∀ (f : RawFunction) {s : Scopes}, s.Sound →
    BindsHere s (bindFunction f s).2 [.expr (.function (bindFunction f s).1)]
  | .mk params variadic body pos, s, hs => by
    rw [bindFunction]
    have hin : (Scopes.enterFunction s).2.Sound := ⟨List.cons_ne_nil _ _, hs.named⟩
    have hp := introduceAll_binds params hin
    have hb := bindBody_binds body hp.sound
    exact ((hp.trans hb).exitFunction hs).node hs _ (List.append_nil _).symm (fun _ _ => rfl) nofun

/-- **Binding a statement** changes what is visible as the rules say. -/
theorem bindStmt_binds : ∀ (st : RawStmt) {s : Scopes}, s.Sound →
    Binds s (bindStmt st s).2 [] (fun L v => (bindStmt st s).1.visibleAfter L v)
      (fun _ v => [(v, .stmt (bindStmt st s).1)])
  | .localVars vars values pos, s, hs => by
    rw [bindStmt]
    have hvars := declareAll_binds vars hs
    have hvalues := bindExprs_binds values hvars.sound
    -- the names are those of the declarations, also behind the values
    have hnamed := (named_declareAll vars hs).of_isPrefix hvalues.locals
    have hbinds := bindAll_binds vars _ hvalues.sound hnamed
    refine (hvars.trans (hvalues.trans hbinds)).node hs _ (List.append_nil _).symm
      (fun _ _ => ?_) nofun
    exact (List.append_nil _).symm
  | .localFunction var f pos, s, hs => by
    rw [bindStmt]
    have hv := introduce_binds hs var
    exact (hv.trans (bindFunction_binds f hv.sound)).node hs _ rfl (fun _ _ => rfl) nofun
  | .functionDecl target f pos, s, hs => by
    rw [bindStmt]
    have ht := bindExpr_binds target hs
    exact (ht.trans (bindFunction_binds f ht.sound)).node hs _ rfl (fun _ _ => rfl) nofun
  | .assign targets values pos, s, hs => by
    rw [bindStmt]
    have ht := bindExprs_binds targets hs
    refine (ht.trans (bindExprs_binds values ht.sound)).node hs _ rfl (fun _ _ => ?_) nofun
    exact List.map_append
  | .compound op target value pos, s, hs => by
    rw [bindStmt]
    have ht := bindExpr_binds target hs
    exact (ht.trans (bindExpr_binds value ht.sound)).node hs _ rfl (fun _ _ => rfl) nofun
  | .expr e, s, hs => by
    rw [bindStmt]
    exact (bindExpr_binds e hs).node hs _ rfl (fun _ _ => rfl) nofun
  | .block body, s, hs => by
    rw [bindStmt]
    exact (bindBlock_binds body hs).node hs _ rfl (fun _ _ => rfl) nofun
  | .conditional condition body rest pos, s, hs => by
    rw [bindStmt]
    have hc := bindExpr_binds condition hs
    have hb := bindBlock_binds body hc.sound
    have hr := bindAlternative_binds rest hb.sound
    exact (hc.trans (hb.trans hr)).node hs _ rfl (fun _ _ => rfl) nofun
  | .whileLoop condition body pos, s, hs => by
    rw [bindStmt]
    have hc := bindExpr_binds condition hs
    exact (hc.trans (bindBlock_binds body hc.sound)).node hs _ rfl (fun _ _ => rfl) nofun
  | .repeatLoop body condition pos, s, hs => by
    rw [bindStmt]
    have hb := bindBody_binds body hs.enter
    have hc := bindExpr_binds condition hb.sound
    exact ((hb.trans hc).exit hs).node hs _ rfl (fun _ _ => rfl) nofun
  | .numericFor var start limit step body pos, s, hs => by
    rw [bindStmt]
    have hstart := bindExpr_binds start hs
    have hlimit := bindExpr_binds limit hstart.sound
    have hstep := bindOption_binds step hlimit.sound
    have hvar := introduce_binds hstep.sound.enter var
    have hbody := bindBlock_binds body hvar.sound
    have h := hstart.trans (hlimit.trans (hstep.trans ((hvar.trans hbody).exit hstep.sound)))
    refine h.node hs _ rfl (fun L v => ?_) nofun
    show _ :: _ :: (List.map _ _ ++ [_]) = _ :: _ :: (List.map _ (List.map _ _) ++ [_])
    rw [List.map_map]
    rfl
  | .genericFor vars values body pos, s, hs => by
    rw [bindStmt]
    have hvalues := bindExprs_binds values hs
    have hvars := introduceAll_binds vars hvalues.sound.enter
    have hbody := bindBlock_binds body hvars.sound
    have h := hvalues.trans ((hvars.trans hbody).exit hvalues.sound)
    refine h.node hs _ (List.append_nil _).symm (fun L v => ?_) nofun
    show List.map _ _ ++ [_] = List.map _ (List.map _ _) ++ [_]
    rw [List.map_map]
    rfl
  | .ret values pos, s, hs => by
    rw [bindStmt]
    exact (bindExprs_binds values hs).node hs _ rfl (fun _ _ => rfl) nofun
  | .leave pos, s, hs => by
    rw [bindStmt]
    exact (Binds.refl hs).node hs _ rfl (fun _ _ => rfl) nofun

/-- Binding statements changes what is visible from one to the next. -/
theorem bindStmts_binds : ∀ (ss : List RawStmt) {s : Scopes}, s.Sound →
    Binds s (bindStmts ss s).2 [] (fun L v => visibleBehind L v (bindStmts ss s).1)
      (fun L v => scopedStmts L v (bindStmts ss s).1)
  | [], s, hs => by
    rw [bindStmts]
    exact Binds.refl hs
  | st :: ss, s, hs => by
    rw [bindStmts]
    have hst := bindStmt_binds st hs
    exact hst.trans (bindStmts_binds ss hst.sound)

/-- Binding the rest of a conditional leaves what is visible. -/
theorem bindAlternative_binds : ∀ (a : Alternative String Binder) {s : Scopes}, s.Sound →
    BindsHere s (bindAlternative a s).2 (bindAlternative a s).1.children
  | .none, s, hs => by
    rw [bindAlternative]
    exact Binds.refl hs
  | .otherwise body, s, hs => by
    rw [bindAlternative]
    exact bindBlock_binds body hs
  | .elseIf condition body rest, s, hs => by
    rw [bindAlternative]
    have hc := bindExpr_binds condition hs
    have hb := bindBlock_binds body hc.sound
    exact hc.trans (hb.trans (bindAlternative_binds rest hb.sound))

/-- Binding the body of a function or of a `repeat` loop stays in the open scope. -/
theorem bindBody_binds : ∀ (b : RawBlock) {s : Scopes}, s.Sound →
    Binds s (bindBody b s).2 [] (fun L v => visibleBehind L v (bindBody b s).1.stmts)
      (fun _ v => [(v, .block (bindBody b s).1)])
  | .mk pos stmts, s, hs => by
    rw [bindBody]
    exact (bindStmts_binds stmts hs).node hs _ rfl (fun _ _ => rfl) nofun

/-- **Binding a block** leaves what is visible around it. -/
theorem bindBlock_binds : ∀ (b : RawBlock) {s : Scopes}, s.Sound →
    BindsHere s (bindBlock b s).2 [.block (bindBlock b s).1]
  | .mk pos stmts, s, hs => by
    rw [bindBlock]
    have hbody := bindStmts_binds stmts hs.enter
    exact (hbody.exit hs).node hs _ rfl (fun _ _ => rfl) nofun

end

end Walk

/-! ## Programs -/

namespace Program

/-- Binding a whole program is one stretch of the walk, in the scope of the program. -/
lemma ofBlock_binds (body : RawBlock) :
    ∃ s s' after, s.sight = [] ∧ s.locals = #[] ∧ s'.locals = (ofBlock body).locals ∧
      Binds s s' [] after (fun _ v => [(v, .block (ofBlock body).body)]) := by
  obtain ⟨pos, stmts⟩ := body
  have hs : (Scopes.enter Scopes.empty).2.Sound := ⟨List.cons_ne_nil _ _, nofun⟩
  have h := (bindStmts_binds stmts hs).node hs (.block (ofBlock (.mk pos stmts)).body) rfl
    (fun L v => by rw [ofBlock, bindBlock]; rfl) nofun
  refine ⟨_, _, _, rfl, rfl, ?_, h⟩
  rw [ofBlock, bindBlock]
  rfl

/-- **What holds of a bound program**: its nodes are well bound, and its declarations are the
numbered ones, each made once. -/
structure Bound (p : Program) : Prop where
  nodes : ∀ x ∈ p.scopedNodes, WellBound p.locals x
  declared : (declaredIn [.block p.body]).Perm (List.Ico 0 p.locals.size)

/-- **Binding gives bound programs.** -/
theorem ofBlock_bound (body : RawBlock) : (ofBlock body).Bound := by
  obtain ⟨s, s', after, hsight, hempty, hlocals, h⟩ := ofBlock_binds body
  constructor
  · have hnodes := h.wellBound (ofBlock body).locals (hlocals ▸ List.prefix_rfl)
    rw [hsight, Inherited.preorders_cons, Inherited.preorders_nil, List.append_nil] at hnodes
    exact hnodes
  · have hdeclared := h.declared #[] []
    rw [hempty, hlocals, List.nil_append] at hdeclared
    exact hdeclared

section Declared

variable {p : Program}

/-- Every declaration of a bound program is made once. -/
lemma Bound.nodup_declaredIn (hp : p.Bound) : (declaredIn [.block p.body]).Nodup :=
  hp.declared.nodup_iff.2 (List.Ico.nodup _ _)

lemma Bound.mem_declaredIn_iff (hp : p.Bound) {id : LocalId} :
    id ∈ declaredIn [.block p.body] ↔ id < p.locals.size := by
  rw [hp.declared.mem_iff, List.Ico.mem]
  exact and_iff_right (Nat.zero_le _)

end Declared

end Program

end ScriptCore
