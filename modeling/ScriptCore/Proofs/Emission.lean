import ScriptCore.Proofs.Placement

set_option relaxedAutoImplicit false
set_option autoImplicit false

/-!
# Lowering emits the placed calls

Lowering walks over a program with a register counter and may stop in the middle. Run from a
compiler whose counter stands at some register, it does exactly this: if a call among the nodes
lowered overflows, it stops with the first such call; if none does, it emits all of them in
postorder.

## Main definitions

* `ScriptCore.Emitting.outcome` — the result of a computation from a compiler, and the compiler
  behind it.
* `ScriptCore.EmitsTo` — a computation emits the calls of some nodes.

## Main results

* `ScriptCore.lowerExpr_emits`, `ScriptCore.lowerBlock_emits` — lowering emits the placed calls.
* `ScriptCore.Compiler.compileProgram_outcome`, `ScriptCore.Compiler.compile_outcome` — the result
  of a compilation in closed form.
-/

namespace ScriptCore

/-! ## Running a computation of a compiler -/

namespace Emitting

variable {α γ : Type}

/-- The result of a computation from a compiler, and the compiler behind it. -/
def outcome (x : Emitting α) (c : Compiler) : Except CompileError α × Compiler := x.run.run c

@[simp]
lemma outcome_pure (a : α) (c : Compiler) : outcome (pure a) c = (.ok a, c) := rfl

@[simp]
lemma outcome_throw (e : CompileError) (c : Compiler) :
    outcome (throw e : Emitting α) c = (.error e, c) := rfl

@[simp]
lemma outcome_get (c : Compiler) : outcome get c = (.ok c, c) := rfl

@[simp]
lemma outcome_modify (f : Compiler → Compiler) (c : Compiler) :
    outcome (modify f) c = (.ok ⟨⟩, f c) := rfl

@[simp]
lemma outcome_modifyGet (f : Compiler → α × Compiler) (c : Compiler) :
    outcome (modifyGet f) c = (.ok (f c).1, (f c).2) := rfl

@[simp]
lemma outcome_register (c : Compiler) : outcome register c = (.ok c.register, c) := rfl

lemma outcome_bind (x : Emitting α) (f : α → Emitting γ) (c : Compiler) :
    outcome (x >>= f) c = match outcome x c with
      | (.ok a, c') => outcome (f a) c'
      | (.error e, c') => (.error e, c') := by
  simp only [outcome, bind, ExceptT.bind, ExceptT.mk, ExceptT.run, StateT.bind, StateT.run]
  rcases (x c : Except CompileError α × Compiler) with ⟨_ | a, c'⟩ <;> rfl

/-- A computation goes on behind one that succeeds. -/
lemma outcome_bind_ok {x : Emitting α} {f : α → Emitting γ} {c c' : Compiler} {a : α}
    (h : outcome x c = (.ok a, c')) : outcome (x >>= f) c = outcome (f a) c' := by
  rw [outcome_bind, h]

/-- A computation stops with one that fails. -/
lemma outcome_bind_error {x : Emitting α} {f : α → Emitting γ} {c c' : Compiler}
    {e : CompileError} (h : outcome x c = (.error e, c')) :
    outcome (x >>= f) c = (.error e, c') := by
  rw [outcome_bind, h]

end Emitting

/-! ## Emitting the calls of nodes -/

/-- The line of the first call among some nodes that overflows. -/
def overflow? (ps : List (Place × Node Reference LocalId)) : Option Nat :=
  ((placedCalls (placement.preorders ps)).find? (·.overflows)).map (·.call.pos.line)

/-- The calls among some nodes, in the order they are emitted. -/
def emittedCalls (ps : List (Place × Node Reference LocalId)) : List PlacedCall :=
  placedCalls (placement.postorders ps)

lemma placedCalls_append (ps qs : List (Place × Node Reference LocalId)) :
    placedCalls (ps ++ qs) = placedCalls ps ++ placedCalls qs :=
  List.filterMap_append

lemma overflow?_append (ps qs : List (Place × Node Reference LocalId)) :
    overflow? (ps ++ qs) = (overflow? ps).or (overflow? qs) := by
  simp only [overflow?, Inherited.preorders_append, placedCalls_append, List.find?_append]
  cases (placedCalls (placement.preorders ps)).find? (·.overflows) <;> rfl

lemma emittedCalls_append (ps qs : List (Place × Node Reference LocalId)) :
    emittedCalls (ps ++ qs) = emittedCalls ps ++ emittedCalls qs := by
  simp only [emittedCalls, Inherited.postorders_append, placedCalls_append]

/-- **A computation emits the calls of some nodes**, starting with the register counter at `r` and
leaving it at `r'`: it stops with the first call that overflows, and emits all of them if none
does. -/
structure EmitsTo (facts : Facts) (r r' : Nat) (x : Emitting Unit)
    (ps : List (Place × Node Reference LocalId)) : Prop where
  ok : ∀ c : Compiler, c.register = r → overflow? ps = none →
    x.outcome c = (.ok (), { c.place facts (emittedCalls ps) with register := r' })
  error : ∀ (c : Compiler) (line : Nat), c.register = r → overflow? ps = some line →
    ∃ c', x.outcome c = (.error (.registerOverflow line), c') ∧ c'.options = c.options

/-- A computation that leaves the register counter where it was. -/
abbrev Emits (facts : Facts) (r : Nat) (x : Emitting Unit)
    (ps : List (Place × Node Reference LocalId)) : Prop :=
  EmitsTo facts r r x ps

namespace EmitsTo

variable {facts : Facts} {r r' r'' : Nat} {x y : Emitting Unit}
  {ps qs : List (Place × Node Reference LocalId)}

/-- Setting the register counter emits nothing. -/
lemma setRegister (r r' : Nat) : EmitsTo facts r r' (Emitting.setRegister r') [] where
  ok c _ _ := by
    rw [Emitting.setRegister, Emitting.outcome_modify]
    simp [emittedCalls, placedCalls, Compiler.place_nil]
  error _ _ _ h := by simp [overflow?, placedCalls] at h

/-- Doing nothing emits nothing. -/
lemma nothing (r : Nat) : Emits facts r (pure ()) [] where
  ok c hc _ := by
    subst hc
    simp [emittedCalls, placedCalls, Compiler.place_nil]
  error _ _ _ h := by simp [overflow?, placedCalls] at h

/-- **Computations in sequence** emit the calls of the nodes of both. -/
theorem seq (hx : EmitsTo facts r r' x ps) (hy : EmitsTo facts r' r'' y qs) :
    EmitsTo facts r r'' (do x; y) (ps ++ qs) where
  ok c hc hnone := by
    rw [overflow?_append, Option.or_eq_none_iff] at hnone
    rw [Emitting.outcome_bind_ok (hx.ok c hc hnone.1), hy.ok _ rfl hnone.2, emittedCalls_append,
      Compiler.place_append]
    rfl
  error c line hc hsome := by
    rw [overflow?_append] at hsome
    rcases hps : overflow? ps with _ | l
    · rw [hps, Option.none_or] at hsome
      obtain ⟨c', hc', ho⟩ :=
        hy.error { c.place facts (emittedCalls ps) with register := r' } line rfl hsome
      exact ⟨c', by rw [Emitting.outcome_bind_ok (hx.ok c hc hps)]; exact hc', ho⟩
    · rw [hps, Option.some_or, Option.some.injEq] at hsome
      subst hsome
      obtain ⟨c', hc', ho⟩ := hx.error c l hc hps
      exact ⟨c', Emitting.outcome_bind_error hc', ho⟩

/-- A computation that gives back its registers may leave the counter anywhere. -/
theorem keepingRegister (hx : EmitsTo facts r r' x ps) :
    Emits facts r (Emitting.keepingRegister x) ps where
  ok c hc hnone := by
    have hseq := (hx.seq (setRegister r' r)).ok c hc (by rw [List.append_nil]; exact hnone)
    rw [List.append_nil] at hseq
    rw [← hc] at hseq ⊢
    exact hseq
  error c line hc hsome := by
    obtain ⟨c', hc', ho⟩ := hx.error c line hc hsome
    refine ⟨c', ?_, ho⟩
    rw [Emitting.keepingRegister, Emitting.outcome_bind_ok (Emitting.outcome_register c)]
    exact Emitting.outcome_bind_error hc'

/-- A node that is no call emits the calls of its parts. -/
theorem node {p : Place} {n : Node Reference LocalId} (hn : n.call? = none)
    (hx : EmitsTo facts r r' x (n.places p.register)) : EmitsTo facts r r' x [(p, n)] := by
  have hover : overflow? [(p, n)] = overflow? (n.places p.register) := by
    simp [overflow?, placedCalls, Inherited.preorder_eq, placement, hn]
  have hemit : emittedCalls [(p, n)] = emittedCalls (n.places p.register) := by
    simp [emittedCalls, placedCalls, Inherited.postorder_eq, placement, hn]
  constructor
  · rw [hover, hemit]; exact hx.ok
  · rw [hover]; exact hx.error

/-- The first overflow at a call is that of the call itself, before those of its parts. -/
lemma overflow?_call (p : Place) (n : Node Reference LocalId) {k : Call} (hn : n.call? = some k) :
    overflow? [(p, n)] =
      if PlacedCall.overflows ⟨p, k⟩ then some k.pos.line else overflow? (n.places p.register) := by
  simp only [overflow?, placedCalls, placement, Inherited.preorders_cons, Inherited.preorders_nil,
    Inherited.preorder_eq, List.append_nil, List.filterMap_cons, hn, Option.map_some,
    List.find?_cons]
  split_ifs with h <;> simp [h]

/-- A call is emitted behind the calls of its parts. -/
lemma emittedCalls_call (p : Place) (n : Node Reference LocalId) {k : Call}
    (hn : n.call? = some k) :
    emittedCalls [(p, n)] = emittedCalls (n.places p.register) ++ [⟨p, k⟩] := by
  simp [emittedCalls, placedCalls, placement, Inherited.postorder_eq, hn]

/-- The instructions of a call are appended to those emitted before. -/
lemma emitCall_eq (c : Compiler) (lowering : Lowering) (func : UInt8) (nargs : Option UInt8)
    (results : UInt8) :
    c.emitCall lowering func nargs results = { c with
      bytecode := c.bytecode ++ (lowering.fast?.toList.map FastFunction.word ++
        [Instruction.encode
          ⟨OpCode.call.code, func, (nargs.map (· + 1)).getD 0, results⟩]).toArray } := by
  cases lowering <;> cases nargs <;>
    simp [Compiler.emitCall, Compiler.emit, Lowering.fast?, FastFunction.word, ← Array.toList_inj]

/-- The last step of lowering a call, behind its parts. -/
def emitPlaced (facts : Facts) (k : PlacedCall) : Emitting Unit := do
  let lowering := (← get).loweringFor (facts.resolve k.call.callee) k.call.isMethod
  Emitting.call ⟨k.call.pos.line, facts.resolve k.call.callee, lowering⟩ k.place.register
    (if k.call.isOpen then none else some k.call.passed) k.place.want

/-- A call is emitted at its place. -/
lemma outcome_emitPlaced (k : PlacedCall) (c : Compiler) :
    (emitPlaced facts k).outcome c = (.ok (), c.place facts [k]) := by
  have hlow : c.loweringFor (facts.resolve k.call.callee) k.call.isMethod =
      k.lowering facts c.options := rfl
  have hword : (((if k.call.isOpen then none else some k.call.passed).map UInt8.ofNat).map
      (· + 1)).getD 0 = if k.call.isOpen then 0 else UInt8.ofNat k.call.passed + 1 := by
    split_ifs <;> rfl
  rw [emitPlaced, Emitting.outcome_bind_ok (Emitting.outcome_get c), Emitting.call,
    Emitting.outcome_modify, hlow, emitCall_eq]
  simp only [Compiler.place, PlacedCall.words, PlacedCall.site, PlacedCall.callWord, ← hword,
    List.flatMap_singleton, List.map_singleton]
  rfl

/-- **A call** emits the calls of its callee and its arguments and then itself, unless it
overflows. -/
theorem call {callee : BoundExpr} {args : List BoundExpr} {isMethod : Bool} {pos : Position}
    {want : Want}
    (hcallee : Emits facts r (lowerExpr facts callee .one) [(⟨r, .one⟩, .expr callee)])
    (hargs : EmitsTo facts r r' (lowerArgs facts (r + 1 + if isMethod then 1 else 0) args)
      (valuePlaces 1 (r + 1 + if isMethod then 1 else 0) args)) :
    Emits facts r (lowerExpr facts (.call callee args isMethod pos) want)
      [(⟨r, want⟩, .expr (.call callee args isMethod pos))] := by
  set k : PlacedCall := ⟨⟨r, want⟩, ⟨callee, args, isMethod, pos⟩⟩ with hk
  set parts : Emitting Unit := do
    lowerExpr facts callee .one
    lowerArgs facts (r + 1 + if isMethod then 1 else 0) args
    Emitting.setRegister r with hx
  have hparts : Emits facts r parts ((Node.expr (.call callee args isMethod pos)).places r) := by
    have h := hcallee.seq (hargs.seq (setRegister r' r))
    rw [List.append_nil] at h
    exact h
  have hn : (Node.expr (.call callee args isMethod pos)).call? = some k.call := rfl
  have hover : k.overflows = true ↔
      (r + (args.length + if isMethod then 1 else 0) > Compiler.maxRegister ∨
        args.length + (if isMethod then 1 else 0) ≥ Compiler.maxRegister) := by
    simp [PlacedCall.overflows, hk, Call.passed, Call.receivers]
  have hrun : ∀ c : Compiler, c.register = r →
      (lowerExpr facts (.call callee args isMethod pos) want).outcome c =
        if k.overflows then (.error (.registerOverflow pos.line), c)
        else (parts >>= fun _ => emitPlaced facts k).outcome c := by
    intro c hc
    rw [lowerExpr, Emitting.outcome_bind_ok (Emitting.outcome_register c), hc]
    by_cases h : k.overflows
    · rw [if_pos h]
      simp only []
      rw [if_pos (hover.1 h)]
      exact Emitting.outcome_bind_error (Emitting.outcome_throw _ c)
    · rw [if_neg h, hx]
      simp only []
      rw [if_neg (mt hover.2 h)]
      simp only [bind_assoc]
      rfl
  constructor
  · intro c hc hnone
    rw [overflow?_call _ _ hn] at hnone
    split_ifs at hnone with h
    rw [hrun c hc, if_neg h, Emitting.outcome_bind_ok (hparts.ok c hc hnone), outcome_emitPlaced,
      emittedCalls_call _ _ hn, Compiler.place_append]
    rfl
  · intro c line hc hsome
    rw [overflow?_call _ _ hn] at hsome
    rw [hrun c hc]
    split_ifs at hsome with h
    · rw [if_pos h]
      obtain rfl : pos.line = line := Option.some.inj hsome
      exact ⟨c, rfl, rfl⟩
    · rw [if_neg h]
      obtain ⟨c', hc', ho⟩ := hparts.error c line hc hsome
      exact ⟨c', Emitting.outcome_bind_error hc', ho⟩

end EmitsTo

/-! ## Lowering trees -/

section Lowering

variable (facts : Facts)

open EmitsTo

mutual

/-- **Lowering an expression** emits its calls. -/
theorem lowerExpr_emits (r : Nat) : ∀ (e : BoundExpr) (want : Want),
    Emits facts r (lowerExpr facts e want) [(⟨r, want⟩, .expr e)]
  | .call callee args isMethod pos, want => by
    obtain ⟨r', hargs⟩ := lowerArgs_emits args (r + 1 + if isMethod then 1 else 0) r
    exact EmitsTo.call (lowerExpr_emits r callee .one) hargs
  | .member object member pos, want => by
    rw [lowerExpr]
    exact node rfl (lowerExpr_emits r object .one)
  | .index object key pos, want => by
    rw [lowerExpr]
    exact node rfl ((lowerExpr_emits r object .one).seq (lowerExpr_emits r key .one))
  | .function f, want => by
    rw [lowerExpr]
    exact lowerFunction_emits r f want
  | .table items pos, want => by
    rw [lowerExpr]
    exact node rfl (lowerItems_emits r items)
  | .unary op operand pos, want => by
    rw [lowerExpr]
    exact node rfl (lowerExpr_emits r operand .one)
  | .binary op left right pos, want => by
    rw [lowerExpr]
    exact node rfl ((lowerExpr_emits r left .one).seq (lowerExpr_emits r right .one))
  | .group inner pos, want => by
    rw [lowerExpr]
    exact node rfl (lowerExpr_emits r inner .one)
  | .nil _, _ | .varargs _, _ | .bool .., _ | .number .., _ | .string .., _ | .name .., _ => by
    rw [lowerExpr]
    exact node rfl (nothing r)

/-- Lowering arguments emits their calls; the register counter ends at the last argument. -/
theorem lowerArgs_emits : ∀ (es : List BoundExpr) (r r₀ : Nat),
    ∃ r', EmitsTo facts r₀ r' (lowerArgs facts r es) (valuePlaces 1 r es)
  | [], r, r₀ => ⟨r₀, by rw [lowerArgs]; exact nothing r₀⟩
  | e :: es, r, r₀ => by
    obtain ⟨r', hrest⟩ := lowerArgs_emits es (r + 1) r
    refine ⟨r', ?_⟩
    rw [lowerArgs]
    exact (setRegister r₀ r).seq ((lowerExpr_emits r e _).seq hrest)

/-- Lowering a list of values emits their calls. -/
theorem lowerList_emits (r : Nat) : ∀ es : List BoundExpr,
    Emits facts r (lowerList facts es) (valuePlaces 0 r es)
  | [] => by rw [lowerList]; exact nothing r
  | e :: es => by
    rw [lowerList]
    exact (lowerExpr_emits r e _).seq (lowerList_emits r es)

/-- Lowering expressions of which one value each is wanted emits their calls. -/
theorem lowerEach_emits (r : Nat) : ∀ es : List BoundExpr,
    Emits facts r (lowerEach facts es) (es.map fun e => (⟨r, .one⟩, .expr e))
  | [] => by rw [lowerEach]; exact nothing r
  | e :: es => by
    rw [lowerEach]
    exact (lowerExpr_emits r e .one).seq (lowerEach_emits r es)

/-- Lowering an optional expression emits its calls. -/
theorem lowerOption_emits (r : Nat) : ∀ e : Option BoundExpr,
    Emits facts r (lowerOption facts e) (e.toList.map fun e => (⟨r, .one⟩, .expr e))
  | none => by rw [lowerOption]; exact nothing r
  | some e => by rw [lowerOption]; exact lowerExpr_emits r e .one

/-- Lowering an item of a table constructor emits its calls. -/
theorem lowerItem_emits (r : Nat) : ∀ i : Item Reference LocalId,
    Emits facts r (lowerItem facts i) [(⟨r, .one⟩, .item i)]
  | .positional value => by
    rw [lowerItem]
    exact node rfl (lowerExpr_emits r value .one)
  | .named name value => by
    rw [lowerItem]
    exact node rfl (lowerExpr_emits r value .one)
  | .keyed key value => by
    rw [lowerItem]
    exact node rfl ((lowerExpr_emits r key .one).seq (lowerExpr_emits r value .one))

/-- Lowering items emits their calls. -/
theorem lowerItems_emits (r : Nat) : ∀ is : List (Item Reference LocalId),
    Emits facts r (lowerItems facts is) ((is.map Node.item).map fun n => (⟨r, .one⟩, n))
  | [] => by rw [lowerItems]; exact nothing r
  | i :: is => by
    rw [lowerItems]
    exact (lowerItem_emits r i).seq (lowerItems_emits r is)

/-- Lowering a function emits the calls of its body, at the registers of a new frame. -/
theorem lowerFunction_emits (r : Nat) : ∀ (f : Function Reference LocalId) (want : Want),
    Emits facts r (lowerFunction facts f) [(⟨r, want⟩, .expr (.function f))]
  | .mk params variadic body pos, want => by
    rw [lowerFunction]
    exact node rfl (((setRegister r 0).seq (lowerBlock_emits 0 body)).keepingRegister)

/-- Lowering a statement emits its calls. -/
theorem lowerStmt_emits (r : Nat) : ∀ s : BoundStmt,
    Emits facts r (lowerStmt facts s) [(⟨r, .one⟩, .stmt s)]
  | .expr e => by
    rw [lowerStmt]
    exact node rfl (lowerExpr_emits r e .none)
  | .localVars vars values pos => by
    rw [lowerStmt]
    exact node rfl (lowerList_emits r values)
  | .localFunction var f pos => by
    rw [lowerStmt]
    exact node rfl (lowerFunction_emits r f .one)
  | .functionDecl target f pos => by
    rw [lowerStmt]
    exact node rfl ((lowerExpr_emits r target .one).seq (lowerFunction_emits r f .one))
  | .assign targets values pos => by
    rw [lowerStmt]
    exact node rfl ((lowerEach_emits r targets).seq (lowerList_emits r values))
  | .compound op target value pos => by
    rw [lowerStmt]
    exact node rfl ((lowerExpr_emits r target .one).seq (lowerExpr_emits r value .one))
  | .block body => by
    rw [lowerStmt]
    exact node rfl (lowerBlock_emits r body)
  | .conditional condition body rest pos => by
    rw [lowerStmt]
    exact node rfl ((lowerExpr_emits r condition .one).seq
      ((lowerBlock_emits r body).seq (lowerAlternative_emits r rest)))
  | .whileLoop condition body pos => by
    rw [lowerStmt]
    exact node rfl ((lowerExpr_emits r condition .one).seq (lowerBlock_emits r body))
  | .repeatLoop body condition pos => by
    rw [lowerStmt]
    exact node rfl ((lowerBlock_emits r body).seq (lowerExpr_emits r condition .one))
  | .numericFor var start limit step body pos => by
    rw [lowerStmt]
    have h := (lowerExpr_emits r start .one).seq ((lowerExpr_emits r limit .one).seq
      ((lowerOption_emits r step).seq (lowerBlock_emits r body)))
    refine node rfl ?_
    simpa [Node.places, Node.children, Stmt.children, Function.comp_def] using h
  | .genericFor vars values body pos => by
    rw [lowerStmt]
    exact node rfl ((lowerList_emits r values).seq (lowerBlock_emits r body))
  | .ret values pos => by
    rw [lowerStmt]
    exact node rfl (lowerList_emits r values)
  | .leave pos => by
    rw [lowerStmt]
    exact node rfl (nothing r)

/-- Lowering statements emits their calls. -/
theorem lowerStmts_emits (r : Nat) : ∀ ss : List BoundStmt,
    Emits facts r (lowerStmts facts ss) ((ss.map Node.stmt).map fun n => (⟨r, .one⟩, n))
  | [] => by rw [lowerStmts]; exact nothing r
  | s :: ss => by
    rw [lowerStmts]
    exact (lowerStmt_emits r s).keepingRegister.seq (lowerStmts_emits r ss)

/-- Lowering the rest of a conditional emits its calls. -/
theorem lowerAlternative_emits (r : Nat) : ∀ a : Alternative Reference LocalId,
    Emits facts r (lowerAlternative facts a) (a.children.map fun n => (⟨r, .one⟩, n))
  | .none => by rw [lowerAlternative]; exact nothing r
  | .otherwise body => by rw [lowerAlternative]; exact lowerBlock_emits r body
  | .elseIf condition body rest => by
    rw [lowerAlternative]
    exact (lowerExpr_emits r condition .one).seq
      ((lowerBlock_emits r body).seq (lowerAlternative_emits r rest))

/-- **Lowering a block** emits its calls. -/
theorem lowerBlock_emits (r : Nat) : ∀ b : BoundBlock,
    Emits facts r (lowerBlock facts b) [(⟨r, .one⟩, .block b)]
  | .mk pos stmts => by
    rw [lowerBlock]
    exact node rfl (lowerStmts_emits r stmts)

end

end Lowering

/-! ## Compiling programs -/

/-- The word that ends a unit. -/
def returnWord : UInt32 := Instruction.encode ⟨OpCode.ret.code, 0, 1, 0⟩

namespace Program

/-- The line of the first call of a program that needs too many registers. -/
def overflowLine? (p : Program) : Option Nat :=
  (p.announced.find? (·.overflows)).map (·.call.pos.line)

/-- The unit of a program none of whose calls overflows. -/
def unit (p : Program) (o : CompileOptions) : CompiledUnit where
  bytecode :=
    (p.emitted.flatMap (·.words (.ofProgram o.mutableGlobals p) o) ++ [returnWord]).toArray
  callSites := (p.emitted.map (·.site (.ofProgram o.mutableGlobals p) o)).toArray

end Program

namespace Compiler

/-- Lowering the body of a program with all registers free, in terms of its placed calls. -/
lemma lowerBlock_body_emits (facts : Facts) (p : Program) :
    Emits facts 0 (lowerBlock facts p.body) [(.start, .block p.body)] :=
  lowerBlock_emits facts 0 p.body

lemma overflow?_body (p : Program) : overflow? [(.start, .block p.body)] = p.overflowLine? := by
  simp [overflow?, Program.overflowLine?, Program.announced]

lemma emittedCalls_body (p : Program) : emittedCalls [(.start, .block p.body)] = p.emitted := by
  simp [emittedCalls, Program.emitted]

/-- **The result of compiling a program**: the first overflow, or else the calls at their places.
What the compiler did before does not matter, and its options stay. -/
theorem compileProgram_outcome (p : Program) (c : Compiler) :
    ((compileProgram p).outcome c).1 = (match p.overflowLine? with
      | some line => .error (.registerOverflow line)
      | none => .ok (p.unit c.options)) ∧
    ((compileProgram p).outcome c).2.options = c.options := by
  set facts := Facts.ofProgram c.options.mutableGlobals p with hfacts
  have hbody := lowerBlock_body_emits facts p
  have hrun : (compileProgram p).outcome c = (lowerBlock facts p.body >>= fun _ => do
      modify (·.emit .ret 0 1 0)
      modifyGet fun c => (⟨c.bytecode, c.callSites⟩,
        { c with bytecode := #[], callSites := #[] })).outcome c.clear := rfl
  rw [hrun]
  rcases h : p.overflowLine? with _ | line
  · rw [Emitting.outcome_bind_ok (hbody.ok c.clear rfl ((overflow?_body p).trans h)),
      Emitting.outcome_bind_ok (Emitting.outcome_modify _ _), Emitting.outcome_modifyGet]
    refine ⟨?_, rfl⟩
    rw [emittedCalls_body]
    simp [Program.unit, place, emit, clear, new, ← hfacts, returnWord]
  · obtain ⟨c', hc', ho⟩ := hbody.error c.clear line rfl ((overflow?_body p).trans h)
    rw [Emitting.outcome_bind_error hc']
    exact ⟨rfl, ho⟩

/-- **The result of compiling a source text.** -/
theorem compile_outcome (source : String) (c : Compiler) :
    ((compile source).outcome c).1 = match parseProgram source with
      | .error e => .error (.parse e)
      | .ok p => match p.overflowLine? with
        | some line => .error (.registerOverflow line)
        | none => .ok (p.unit c.options) := by
  unfold compile
  rcases parseProgram source with e | p
  · rfl
  · exact (compileProgram_outcome p c).1

end Compiler

end ScriptCore
