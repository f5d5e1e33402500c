import Mathlib
import ScriptCore.Source.Scope
import ScriptCore.Proofs.Traversal

set_option relaxedAutoImplicit false
set_option autoImplicit false

/-!
# What a tree contains

A node of a tree stands in a certain role in another one: as the object of an element, as a value
of an assignment, as the body of a loop. A tree contains what it comes to by such steps, at any
depth. The walk over a tree lists just that: it leaves out no role and goes into every part.

## Main definitions

* `ScriptCore.Node.HasPart` — the roles of the parts of a node.
* `ScriptCore.Node.Contains`, `ScriptCore.Program.Contains` — what a tree contains at any depth.

## Main results

* `ScriptCore.Node.hasPart_iff` — the roles are those that the walk goes through.
* `ScriptCore.Node.contains_iff` — the walk lists what a tree contains.
-/

namespace ScriptCore

variable {ρ β : Type}

/-! ## Roles of parts -/

/-- The parts of the branches of a conditional behind its first one. -/
inductive Alternative.HasPart : Alternative ρ β → Node ρ β → Prop
  | otherwise {body : Block ρ β} : HasPart (.otherwise body) (.block body)
  | elseIfCondition {condition : Expr ρ β} {body : Block ρ β} {rest : Alternative ρ β} :
    HasPart (.elseIf condition body rest) (.expr condition)
  | elseIfBody {condition : Expr ρ β} {body : Block ρ β} {rest : Alternative ρ β} :
    HasPart (.elseIf condition body rest) (.block body)
  | later {condition : Expr ρ β} {body : Block ρ β} {rest : Alternative ρ β} {c : Node ρ β}
    (h : HasPart rest c) : HasPart (.elseIf condition body rest) c

/-- The parts of an expression. -/
inductive Expr.HasPart : Expr ρ β → Node ρ β → Prop
  | memberObject {object : Expr ρ β} {name : String} {pos : Position} :
    HasPart (.member object name pos) (.expr object)
  | indexObject {object key : Expr ρ β} {pos : Position} :
    HasPart (.index object key pos) (.expr object)
  | indexKey {object key : Expr ρ β} {pos : Position} : HasPart (.index object key pos) (.expr key)
  | callee {callee : Expr ρ β} {args : List (Expr ρ β)} {isMethod : Bool} {pos : Position} :
    HasPart (.call callee args isMethod pos) (.expr callee)
  | argument {callee : Expr ρ β} {args : List (Expr ρ β)} {isMethod : Bool} {pos : Position}
    {arg : Expr ρ β} (h : arg ∈ args) : HasPart (.call callee args isMethod pos) (.expr arg)
  | functionBody {f : Function ρ β} : HasPart (.function f) (.block f.body)
  | tableItem {items : List (Item ρ β)} {pos : Position} {item : Item ρ β} (h : item ∈ items) :
    HasPart (.table items pos) (.item item)
  | operand {op : UnaryOp} {operand : Expr ρ β} {pos : Position} :
    HasPart (.unary op operand pos) (.expr operand)
  | leftOperand {op : BinaryOp} {left right : Expr ρ β} {pos : Position} :
    HasPart (.binary op left right pos) (.expr left)
  | rightOperand {op : BinaryOp} {left right : Expr ρ β} {pos : Position} :
    HasPart (.binary op left right pos) (.expr right)
  | inner {inner : Expr ρ β} {pos : Position} : HasPart (.group inner pos) (.expr inner)

/-- The parts of an item of a table constructor. -/
inductive Item.HasPart : Item ρ β → Node ρ β → Prop
  | positional {value : Expr ρ β} : HasPart (.positional value) (.expr value)
  | named {name : String} {value : Expr ρ β} : HasPart (.named name value) (.expr value)
  | key {key value : Expr ρ β} : HasPart (.keyed key value) (.expr key)
  | keyedValue {key value : Expr ρ β} : HasPart (.keyed key value) (.expr value)

/-- The parts of a statement. -/
inductive Stmt.HasPart : Stmt ρ β → Node ρ β → Prop
  | localValue {vars : List β} {values : List (Expr ρ β)} {pos : Position} {value : Expr ρ β}
    (h : value ∈ values) : HasPart (.localVars vars values pos) (.expr value)
  | localFunction {var : β} {f : Function ρ β} {pos : Position} :
    HasPart (.localFunction var f pos) (.expr (.function f))
  | functionTarget {target : Expr ρ β} {f : Function ρ β} {pos : Position} :
    HasPart (.functionDecl target f pos) (.expr target)
  | functionValue {target : Expr ρ β} {f : Function ρ β} {pos : Position} :
    HasPart (.functionDecl target f pos) (.expr (.function f))
  | assignTarget {targets values : List (Expr ρ β)} {pos : Position} {target : Expr ρ β}
    (h : target ∈ targets) : HasPart (.assign targets values pos) (.expr target)
  | assignValue {targets values : List (Expr ρ β)} {pos : Position} {value : Expr ρ β}
    (h : value ∈ values) : HasPart (.assign targets values pos) (.expr value)
  | compoundTarget {op : BinaryOp} {target value : Expr ρ β} {pos : Position} :
    HasPart (.compound op target value pos) (.expr target)
  | compoundValue {op : BinaryOp} {target value : Expr ρ β} {pos : Position} :
    HasPart (.compound op target value pos) (.expr value)
  | expr {e : Expr ρ β} : HasPart (.expr e) (.expr e)
  | block {body : Block ρ β} : HasPart (.block body) (.block body)
  | ifCondition {condition : Expr ρ β} {body : Block ρ β} {rest : Alternative ρ β}
    {pos : Position} : HasPart (.conditional condition body rest pos) (.expr condition)
  | ifBody {condition : Expr ρ β} {body : Block ρ β} {rest : Alternative ρ β} {pos : Position} :
    HasPart (.conditional condition body rest pos) (.block body)
  | ifLater {condition : Expr ρ β} {body : Block ρ β} {rest : Alternative ρ β} {pos : Position}
    {c : Node ρ β} (h : rest.HasPart c) : HasPart (.conditional condition body rest pos) c
  | whileCondition {condition : Expr ρ β} {body : Block ρ β} {pos : Position} :
    HasPart (.whileLoop condition body pos) (.expr condition)
  | whileBody {condition : Expr ρ β} {body : Block ρ β} {pos : Position} :
    HasPart (.whileLoop condition body pos) (.block body)
  | repeatBody {body : Block ρ β} {condition : Expr ρ β} {pos : Position} :
    HasPart (.repeatLoop body condition pos) (.block body)
  | repeatCondition {body : Block ρ β} {condition : Expr ρ β} {pos : Position} :
    HasPart (.repeatLoop body condition pos) (.expr condition)
  | forStart {var : β} {start limit : Expr ρ β} {step : Option (Expr ρ β)} {body : Block ρ β}
    {pos : Position} : HasPart (.numericFor var start limit step body pos) (.expr start)
  | forLimit {var : β} {start limit : Expr ρ β} {step : Option (Expr ρ β)} {body : Block ρ β}
    {pos : Position} : HasPart (.numericFor var start limit step body pos) (.expr limit)
  | forStep {var : β} {start limit step : Expr ρ β} {body : Block ρ β} {pos : Position} :
    HasPart (.numericFor var start limit (some step) body pos) (.expr step)
  | forBody {var : β} {start limit : Expr ρ β} {step : Option (Expr ρ β)} {body : Block ρ β}
    {pos : Position} : HasPart (.numericFor var start limit step body pos) (.block body)
  | forValue {vars : List β} {values : List (Expr ρ β)} {body : Block ρ β} {pos : Position}
    {value : Expr ρ β} (h : value ∈ values) :
    HasPart (.genericFor vars values body pos) (.expr value)
  | forEachBody {vars : List β} {values : List (Expr ρ β)} {body : Block ρ β} {pos : Position} :
    HasPart (.genericFor vars values body pos) (.block body)
  | returned {values : List (Expr ρ β)} {pos : Position} {value : Expr ρ β} (h : value ∈ values) :
    HasPart (.ret values pos) (.expr value)

namespace Node

/-- **The parts of a node**, by their roles. -/
inductive HasPart : Node ρ β → Node ρ β → Prop
  | expr {e : Expr ρ β} {c : Node ρ β} (h : e.HasPart c) : HasPart (.expr e) c
  | item {i : Item ρ β} {c : Node ρ β} (h : i.HasPart c) : HasPart (.item i) c
  | stmt {s : Stmt ρ β} {c : Node ρ β} (h : s.HasPart c) : HasPart (.stmt s) c
  | statement {b : Block ρ β} {s : Stmt ρ β} (h : s ∈ b.stmts) : HasPart (.block b) (.stmt s)

/-- What a tree contains: its root and, at any depth, the parts of what it contains. -/
def Contains : Node ρ β → Node ρ β → Prop := Relation.ReflTransGen HasPart

end Node

/-- What a program contains at any depth. -/
def Program.Contains (p : Program) (n : Node Reference LocalId) : Prop :=
  (Node.block p.body).Contains n

/-! ## The walk meets every role -/

lemma Alternative.hasPart_iff {a : Alternative ρ β} {c : Node ρ β} :
    a.HasPart c ↔ c ∈ a.children := by
  constructor
  · intro h
    induction h with
    | otherwise => exact List.mem_singleton_self _
    | elseIfCondition => exact List.mem_cons_self
    | elseIfBody => exact List.mem_cons_of_mem _ List.mem_cons_self
    | later _ ih => exact List.mem_cons_of_mem _ (List.mem_cons_of_mem _ ih)
  · intro h
    match a with
    | .none => exact absurd h List.not_mem_nil
    | .otherwise body => exact List.mem_singleton.1 h ▸ .otherwise
    | .elseIf condition body rest =>
      rcases List.mem_cons.1 h with rfl | h
      · exact .elseIfCondition
      rcases List.mem_cons.1 h with rfl | h
      · exact .elseIfBody
      · exact .later (hasPart_iff.2 h)

lemma Expr.hasPart_iff {e : Expr ρ β} {c : Node ρ β} : e.HasPart c ↔ c ∈ e.children := by
  constructor
  · intro h
    cases h <;> simp_all [children]
  · intro h
    cases e with
    | nil | varargs | bool | number | string | name => exact absurd h List.not_mem_nil
    | member object name pos => exact List.mem_singleton.1 h ▸ .memberObject
    | index object key pos =>
      rcases List.mem_pair.1 h with rfl | rfl
      · exact .indexObject
      · exact .indexKey
    | call callee args isMethod pos =>
      rcases List.mem_cons.1 h with rfl | h
      · exact .callee
      · obtain ⟨arg, harg, rfl⟩ := List.mem_map.1 h
        exact .argument harg
    | function f => exact List.mem_singleton.1 h ▸ .functionBody
    | table items pos =>
      obtain ⟨item, hitem, rfl⟩ := List.mem_map.1 h
      exact .tableItem hitem
    | unary op operand pos => exact List.mem_singleton.1 h ▸ .operand
    | binary op left right pos =>
      rcases List.mem_pair.1 h with rfl | rfl
      · exact .leftOperand
      · exact .rightOperand
    | group inner pos => exact List.mem_singleton.1 h ▸ .inner

lemma Item.hasPart_iff {i : Item ρ β} {c : Node ρ β} : i.HasPart c ↔ c ∈ i.children := by
  constructor
  · intro h
    cases h <;> simp [children]
  · intro h
    cases i with
    | positional value => exact List.mem_singleton.1 h ▸ .positional
    | named name value => exact List.mem_singleton.1 h ▸ .named
    | keyed key value =>
      rcases List.mem_pair.1 h with rfl | rfl
      · exact .key
      · exact .keyedValue

lemma Stmt.hasPart_iff {s : Stmt ρ β} {c : Node ρ β} : s.HasPart c ↔ c ∈ s.children := by
  constructor
  · intro h
    cases h <;> simp_all [children, Alternative.hasPart_iff]
  · intro h
    cases s with
    | localVars vars values pos =>
      obtain ⟨value, hvalue, rfl⟩ := List.mem_map.1 h
      exact .localValue hvalue
    | localFunction var f pos => exact List.mem_singleton.1 h ▸ .localFunction
    | functionDecl target f pos =>
      rcases List.mem_pair.1 h with rfl | rfl
      · exact .functionTarget
      · exact .functionValue
    | assign targets values pos =>
      rcases List.mem_append.1 h with h | h
      · obtain ⟨target, htarget, rfl⟩ := List.mem_map.1 h
        exact .assignTarget htarget
      · obtain ⟨value, hvalue, rfl⟩ := List.mem_map.1 h
        exact .assignValue hvalue
    | compound op target value pos =>
      rcases List.mem_pair.1 h with rfl | rfl
      · exact .compoundTarget
      · exact .compoundValue
    | expr e => exact List.mem_singleton.1 h ▸ .expr
    | block body => exact List.mem_singleton.1 h ▸ .block
    | conditional condition body rest pos =>
      rcases List.mem_cons.1 h with rfl | h
      · exact .ifCondition
      rcases List.mem_cons.1 h with rfl | h
      · exact .ifBody
      · exact .ifLater (Alternative.hasPart_iff.2 h)
    | whileLoop condition body pos =>
      rcases List.mem_pair.1 h with rfl | rfl
      · exact .whileCondition
      · exact .whileBody
    | repeatLoop body condition pos =>
      rcases List.mem_pair.1 h with rfl | rfl
      · exact .repeatBody
      · exact .repeatCondition
    | numericFor var start limit step body pos =>
      rcases List.mem_cons.1 h with rfl | h
      · exact .forStart
      rcases List.mem_cons.1 h with rfl | h
      · exact .forLimit
      rcases List.mem_append.1 h with h | h
      · obtain ⟨e, he, rfl⟩ := List.mem_map.1 h
        obtain rfl : step = some e := Option.mem_toList.1 he
        exact .forStep
      · exact List.mem_singleton.1 h ▸ .forBody
    | genericFor vars values body pos =>
      rcases List.mem_append.1 h with h | h
      · obtain ⟨value, hvalue, rfl⟩ := List.mem_map.1 h
        exact .forValue hvalue
      · exact List.mem_singleton.1 h ▸ .forEachBody
    | ret values pos =>
      obtain ⟨value, hvalue, rfl⟩ := List.mem_map.1 h
      exact .returned hvalue
    | leave pos => exact absurd h List.not_mem_nil

namespace Node

variable {n c : Node ρ β}

/-- The walk goes from a node to its parts, and leaves out none. -/
lemma hasPart_iff : n.HasPart c ↔ c ∈ n.children := by
  constructor
  · intro h
    cases h with
    | expr h => exact Expr.hasPart_iff.1 h
    | item h => exact Item.hasPart_iff.1 h
    | stmt h => exact Stmt.hasPart_iff.1 h
    | statement h => exact List.mem_map_of_mem h
  · intro h
    cases n with
    | expr e => exact .expr (Expr.hasPart_iff.2 h)
    | item i => exact .item (Item.hasPart_iff.2 h)
    | stmt s => exact .stmt (Stmt.hasPart_iff.2 h)
    | block b =>
      obtain ⟨s, hs, rfl⟩ := List.mem_map.1 h
      exact .statement hs

/-- **The walk over a tree lists what the tree contains.** -/
theorem contains_iff : n.Contains c ↔ c ∈ n.nodes := by
  constructor
  · intro h
    induction h with
    | refl => exact mem_nodes_self n
    | tail _ hpart ih => exact mem_nodes_of_mem_children ih (hasPart_iff.1 hpart)
  · intro h
    induction n using Node.induction with
    | step n ih =>
      rw [nodes_eq, List.mem_cons] at h
      rcases h with rfl | h
      · exact .refl
      · obtain ⟨d, hd, hc⟩ := List.mem_flatMap.1 h
        exact .head (hasPart_iff.2 hd) (ih d hd hc)

end Node

lemma Program.contains_iff {p : Program} {n : Node Reference LocalId} :
    p.Contains n ↔ n ∈ (Node.block p.body).nodes := Node.contains_iff

end ScriptCore
