import ScriptCore.Compile.Lowering
import ScriptCore.Proofs.Traversal

set_option relaxedAutoImplicit false
set_option autoImplicit false

/-!
# Where the calls of a program are placed

The register of a call and the number of results wanted of it depend on its position in the tree
alone. This file gives them to each node as an attribute handed down, and says what is emitted for
a call at its place.

## Main definitions

* `ScriptCore.Call` — a call of a program; `ScriptCore.PlacedCall` — a call at its place.
* `ScriptCore.placement` — the rule that hands places down.
* `ScriptCore.Program.announced`, `ScriptCore.Program.emitted` — the placed calls of a program
  before and behind the calls in their parts.
* `ScriptCore.PlacedCall.site`, `ScriptCore.PlacedCall.words` — what is emitted for a call.

## Main results

* `ScriptCore.Node.map_snd_places` — the rule gives each part of a node one place.
* `ScriptCore.Compiler.place_append` — calls are emitted one behind the other.
-/

namespace ScriptCore

/-! ## Calls and places -/

/-- A call of a program. -/
structure Call where
  callee : BoundExpr
  args : List BoundExpr
  isMethod : Bool
  pos : Position

/-- The call a node is. -/
def Node.call? : Node Reference LocalId → Option Call
  | .expr (.call callee args isMethod pos) => some ⟨callee, args, isMethod, pos⟩
  | _ => none

lemma Node.call?_eq_some_iff {n : Node Reference LocalId} {k : Call} :
    n.call? = some k ↔ n = .expr (.call k.callee k.args k.isMethod k.pos) := by
  constructor
  · intro h
    unfold call? at h
    split at h
    · cases h
      rfl
    · cases h
  · rintro rfl
    rfl

namespace Call

/-- The number of registers between the function of a call and its first argument. -/
def receivers (k : Call) : Nat := if k.isMethod then 1 else 0

/-- The number of values passed, with the receiver of a method call. -/
def passed (k : Call) : Nat := k.args.length + k.receivers

/-- Whether a call passes all values of its last argument. -/
def isOpen (k : Call) : Bool := (k.args.getLast?.map Expr.isMultiValue).getD false

end Call

/-- A place for the values of an expression: the first register, and how many are wanted. -/
structure Place where
  register : Nat
  want : Want
deriving DecidableEq, Repr

/-- A call at its place. -/
structure PlacedCall where
  place : Place
  call : Call

/-- The places of the values of a list: the first at register `r`, each `step` further. All
values of the last expression are wanted. -/
def valuePlaces (step : Nat) (r : Nat) : List BoundExpr → List (Place × Node Reference LocalId)
  | [] => []
  | e :: es =>
    (⟨r, if es.isEmpty then .all else .one⟩, .expr e) :: valuePlaces step (r + step) es

/-- The places of the parts of a node at register `r`: one value there, if not said otherwise. -/
def Node.places (r : Nat) : Node Reference LocalId → List (Place × Node Reference LocalId)
  | .expr (.call callee args isMethod _) =>
    (⟨r, .one⟩, .expr callee) :: valuePlaces 1 (r + 1 + if isMethod then 1 else 0) args
  | .expr (.function f) => [(⟨0, .one⟩, .block f.body)]
  | .stmt (.expr e) => [(⟨r, .none⟩, .expr e)]
  | .stmt (.localVars _ values _) => valuePlaces 0 r values
  | .stmt (.ret values _) => valuePlaces 0 r values
  | .stmt (.assign targets values _) =>
    targets.map (fun e => (⟨r, .one⟩, .expr e)) ++ valuePlaces 0 r values
  | .stmt (.genericFor _ values body _) => valuePlaces 0 r values ++ [(⟨r, .one⟩, .block body)]
  | n => n.children.map fun c => (⟨r, .one⟩, c)

lemma map_snd_valuePlaces (step : Nat) (es : List BoundExpr) :
    ∀ r, (valuePlaces step r es).map Prod.snd = es.map Node.expr := by
  induction es with
  | nil => intro r; rfl
  | cons e es ih =>
    intro r
    rw [valuePlaces, List.map_cons, List.map_cons, ih]

lemma Node.map_snd_places (r : Nat) (n : Node Reference LocalId) :
    (n.places r).map Prod.snd = n.children := by
  have hrest : ∀ cs : List (Node Reference LocalId),
      (cs.map fun c => ((⟨r, .one⟩, c) : Place × Node Reference LocalId)).map Prod.snd = cs := by
    intro cs
    rw [List.map_map]
    exact List.map_id cs
  unfold Node.places
  split
  · simp [map_snd_valuePlaces, Node.children, Expr.children]
  · rfl
  · rfl
  · exact map_snd_valuePlaces 0 _ r
  · exact map_snd_valuePlaces 0 _ r
  · simp [map_snd_valuePlaces, Node.children, Stmt.children]
  · simp [map_snd_valuePlaces, Node.children, Stmt.children]
  · exact hrest _

/-- The rule that hands places down. -/
def placement : Inherited Reference LocalId Place where
  parts p n := n.places p.register
  map_snd_parts p n := n.map_snd_places p.register

/-- The placed calls among nodes with their places. -/
def placedCalls (ps : List (Place × Node Reference LocalId)) : List PlacedCall :=
  ps.filterMap fun p => p.2.call?.map (⟨p.1, ·⟩)

/-- The place of the body of a program. -/
def Place.start : Place := ⟨0, .one⟩

namespace Program

/-- The calls of a program at their places, each before the calls in its parts. -/
def announced (p : Program) : List PlacedCall :=
  placedCalls (placement.preorder .start (.block p.body))

/-- The calls of a program at their places, each behind the calls in its parts. -/
def emitted (p : Program) : List PlacedCall :=
  placedCalls (placement.postorder .start (.block p.body))

/-- The calls emitted for a program are its calls in postorder. -/
lemma map_call_emitted (p : Program) :
    p.emitted.map PlacedCall.call = (Node.block p.body).postorder.filterMap Node.call? :=
  placement.map_filterMap_postorder Node.call? PlacedCall.mk (fun _ _ => rfl) _ _

end Program

/-! ## What a call is emitted as -/

/-- The word that tries the fast path of a function. -/
def FastFunction.word (f : FastFunction) : UInt32 :=
  Instruction.encode ⟨OpCode.fastCall.code, f.id, 0, 0⟩

namespace PlacedCall

/-- Whether a call needs more registers than a frame has. -/
def overflows (k : PlacedCall) : Bool :=
  k.place.register + k.call.passed > Compiler.maxRegister || k.call.passed ≥ Compiler.maxRegister

variable (facts : Facts) (o : CompileOptions)

/-- How a call is emitted under given options. -/
def lowering (k : PlacedCall) : Lowering :=
  (Compiler.new o).loweringFor (facts.resolve k.call.callee) k.call.isMethod

/-- The record of a call. -/
def site (k : PlacedCall) : CallSite where
  line := k.call.pos.line
  builtin := facts.resolve k.call.callee
  lowering := k.lowering facts o

/-- The word of the ordinary call. -/
def callWord (k : PlacedCall) : UInt32 :=
  Instruction.encode
    { op := OpCode.call.code
      a := UInt8.ofNat k.place.register
      b := if k.call.isOpen then 0 else UInt8.ofNat k.call.passed + 1
      c := k.place.want.operand }

/-- The words of a call: the fast path, if there is one, and the ordinary call. -/
def words (k : PlacedCall) : List UInt32 :=
  (k.lowering facts o).fast?.toList.map FastFunction.word ++ [k.callWord]

end PlacedCall

/-- The compiler behind some calls. -/
def Compiler.place (facts : Facts) (c : Compiler) (ks : List PlacedCall) : Compiler :=
  { c with
    bytecode := c.bytecode ++ (ks.flatMap (·.words facts c.options)).toArray
    callSites := c.callSites ++ (ks.map (·.site facts c.options)).toArray }

lemma Compiler.place_nil (facts : Facts) (c : Compiler) : c.place facts [] = c := by
  simp [Compiler.place]

lemma Compiler.place_append (facts : Facts) (c : Compiler) (ks ls : List PlacedCall) :
    c.place facts (ks ++ ls) = (c.place facts ks).place facts ls := by
  simp [Compiler.place, Array.append_assoc]

end ScriptCore
