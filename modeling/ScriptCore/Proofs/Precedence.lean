import ScriptCore.Proofs.ParsedTrees
import ScriptCore.Proofs.ParserLevels

set_option relaxedAutoImplicit false
set_option autoImplicit false

/-!
# The one tree the priorities allow

Operands and operators in a row can be put together to trees in many ways. Which operators may stand
where is a condition on the operators along the left spine and along the right edge of operands, and
only one tree meets it. It is the one that is parsed: the loop that reads operators and the recursion
that reads operands hand limits to each other, and what one of them leaves is what the other one
must take.

## Main definitions

* `ScriptCore.Expr.leftSpine`, `ScriptCore.Expr.rightEdge` — the operators along the edges.
* `ScriptCore.Expr.SeparatesOperands`, `ScriptCore.Expr.Separated` — what the priorities allow.
* `ScriptCore.Expr.symbols` — the operands and operators of an expression from left to right.
* `ScriptCore.Renders` — the symbols that some tokens stand for.
* `ScriptCore.Climbs` — precedence climbing on symbols.
* `ScriptCore.Expr.ClimbedTo` — the tree of some tokens for a limit.

## Main results

* `ScriptCore.Expr.eq_of_symbols_eq` — only one tree of some symbols meets the conditions.
* `ScriptCore.Renders.unique` — tokens stand for some symbols in one way only.
* `ScriptCore.Grammar.expr_climbedTo` — the tree that is parsed meets the conditions, and no other one does.
-/

namespace ScriptCore

open ScriptCore.Parser

variable {ρ β : Type}

/-! ## Edges of expressions -/

namespace Expr

/-- The binary operators met from the root through left operands. -/
def leftSpine : Expr ρ β → List BinaryOp
  | binary op left _ _ => op :: left.leftSpine
  | _ => []

/-- The operators met from the root through right operands and operands of unary operators. -/
def rightEdge : Expr ρ β → List (UnaryOp ⊕ BinaryOp)
  | unary op operand _ => .inl op :: operand.rightEdge
  | binary op _ right _ => .inr op :: right.rightEdge
  | _ => []

/-- **The operands of a node are separated** as the priorities demand: the operators along the edges
of its operands bind more tightly than its own one. -/
def SeparatesOperands : Expr ρ β → Prop
  | unary _ operand _ => ∀ o ∈ operand.leftSpine, UnaryOp.priority < o.priority.1
  | binary op left right _ =>
    (∀ o ∈ right.leftSpine, op.priority.2 < o.priority.1) ∧
    (∀ o, .inr o ∈ left.rightEdge → op.priority.1 ≤ o.priority.2) ∧
    ((∃ u, .inl u ∈ left.rightEdge) → op.priority.1 ≤ UnaryOp.priority)
  | _ => True

/-- **A tree that the priorities allow**: the operands of each of its operators are separated. What
is inside of brackets and functions does not matter. -/
def Separated : Expr ρ β → Prop
  | unary op operand pos => (unary op operand pos).SeparatesOperands ∧ operand.Separated
  | binary op left right pos =>
    (binary op left right pos).SeparatesOperands ∧ left.Separated ∧ right.Separated
  | _ => True

/-- Induction over the operators of an expression. -/
theorem operatorInduction {P : Expr ρ β → Prop} (simple : ∀ e, e.isSimple → P e)
    (unary : ∀ op operand pos, P operand → P (.unary op operand pos))
    (binary : ∀ op left right pos, P left → P right → P (.binary op left right pos)) :
    ∀ e, P e
  | .unary op operand pos => unary op operand pos (operatorInduction simple unary binary operand)
  | .binary op left right pos =>
    binary op left right pos (operatorInduction simple unary binary left)
      (operatorInduction simple unary binary right)
  | .nil _ | .varargs _ | .bool .. | .number .. | .string .. | .name .. | .member .. | .index .. |
    .call .. | .function _ | .table .. | .group .. => simple _ rfl

lemma leftSpine_of_isSimple {e : Expr ρ β} (h : e.isSimple) : e.leftSpine = [] := by
  cases e <;> first | rfl | cases h

lemma rightEdge_of_isSimple {e : Expr ρ β} (h : e.isSimple) : e.rightEdge = [] := by
  cases e <;> first | rfl | cases h

lemma opensAbove_iff {limit : Nat} {e : Expr ρ β} :
    e.OpensAbove limit ↔ ∀ o ∈ e.leftSpine, limit < o.priority.1 := by
  induction e using operatorInduction with
  | simple e he => simp [leftSpine_of_isSimple he, opensAbove_of_isSimple he]
  | unary op operand pos _ => simp [OpensAbove, leftSpine]
  | binary op left right pos ihl _ => simp [OpensAbove, leftSpine, ihl]

lemma closesAt_iff {priority : Nat} {e : Expr ρ β} : e.ClosesAt priority ↔
    (∀ o, .inr o ∈ e.rightEdge → priority ≤ o.priority.2) ∧
      ((∃ u, .inl u ∈ e.rightEdge) → priority ≤ UnaryOp.priority) := by
  induction e using operatorInduction with
  | simple e he => simp [rightEdge_of_isSimple he, closesAt_of_isSimple he]
  | unary op operand pos ih =>
    simp only [ClosesAt, rightEdge, ih, List.mem_cons, reduceCtorEq, false_or, Sum.inl.injEq,
      exists_or, exists_eq, true_or, forall_const]
    tauto
  | binary op left right pos _ ihr =>
    simp only [ClosesAt, rightEdge, ihr, List.mem_cons, reduceCtorEq, false_or, Sum.inr.injEq,
      forall_eq_or_imp, and_assoc]

lemma separatesOperands_binary_iff {op : BinaryOp} {left right : Expr ρ β} {pos : Position} :
    (binary op left right pos).SeparatesOperands ↔
      left.ClosesAt op.priority.1 ∧ right.OpensAbove op.priority.2 := by
  rw [SeparatesOperands, closesAt_iff, opensAbove_iff]
  exact and_comm

lemma separatesOperands_unary_iff {op : UnaryOp} {operand : Expr ρ β} {pos : Position} :
    (unary op operand pos).SeparatesOperands ↔ operand.OpensAbove UnaryOp.priority := by
  rw [SeparatesOperands, opensAbove_iff]

/-- The nodes of texts separate their operands. -/
lemma Regular.separatesOperands {e : RawExpr} (h : e.Regular) : e.SeparatesOperands := by
  cases e with
  | unary op operand pos => exact separatesOperands_unary_iff.2 h
  | binary op left right pos => exact separatesOperands_binary_iff.2 h
  | _ => trivial

/-- A tree all of whose nodes separate their operands is allowed. -/
lemma separated_of_nodes {e : RawExpr}
    (h : ∀ e', Node.expr e' ∈ (Node.expr e).nodes → e'.SeparatesOperands) : e.Separated := by
  induction e using operatorInduction with
  | simple e he => cases e <;> trivial
  | unary op operand pos ih =>
    refine ⟨h _ (Node.mem_nodes_self _), ih fun e' he' => h e' ?_⟩
    rw [Node.nodes_eq]
    exact List.mem_cons_of_mem _ (List.mem_flatMap.2 ⟨_, List.mem_singleton_self _, he'⟩)
  | binary op left right pos ihl ihr =>
    refine ⟨h _ (Node.mem_nodes_self _), ihl fun e' he' => h e' ?_, ihr fun e' he' => h e' ?_⟩
    · rw [Node.nodes_eq]
      exact List.mem_cons_of_mem _ (List.mem_flatMap.2 ⟨_, List.mem_cons_self, he'⟩)
    · rw [Node.nodes_eq]
      refine List.mem_cons_of_mem _ (List.mem_flatMap.2 ⟨_, ?_, he'⟩)
      exact List.mem_cons_of_mem _ (List.mem_singleton_self _)

end Expr

/-! ## Symbols -/

/-- A symbol of an expression: an operand without operators, or an operator with its place. -/
inductive Symbol
  | operand (e : RawExpr)
  | unary (op : UnaryOp) (pos : Position)
  | binary (op : BinaryOp) (pos : Position)

/-- **The symbols of an expression** from left to right. -/
def Expr.symbols : RawExpr → List Symbol
  | .unary op operand pos => .unary op pos :: operand.symbols
  | .binary op left right pos => left.symbols ++ .binary op pos :: right.symbols
  | e => [.operand e]

lemma Expr.symbols_of_isSimple {e : RawExpr} (h : e.isSimple) : e.symbols = [.operand e] := by
  cases e <;> first | rfl | cases h

/-! ## Climbing -/

/-- **Precedence climbing on symbols**: the tree that is made of symbols from the front, and the
symbols left over. There may be a left operand already; then an operator follows or nothing. -/
inductive Climbs : Nat → Option RawExpr → List Symbol → RawExpr → List Symbol → Prop
  | operand {limit : Nat} {e t : RawExpr} {s r : List Symbol} (h : Climbs limit (some e) s t r) :
    Climbs limit none (.operand e :: s) t r
  | unary {limit : Nat} {op : UnaryOp} {pos : Position} {e t : RawExpr} {s mid r : List Symbol}
    (hoperand : Climbs UnaryOp.priority none s e mid)
    (h : Climbs limit (some (.unary op e pos)) mid t r) : Climbs limit none (.unary op pos :: s) t r
  | binary {limit : Nat} {op : BinaryOp} {pos : Position} {left right t : RawExpr}
    {s mid r : List Symbol} (hlimit : limit < op.priority.1)
    (hright : Climbs op.priority.2 none s right mid)
    (h : Climbs limit (some (.binary op left right pos)) mid t r) :
    Climbs limit (some left) (.binary op pos :: s) t r
  | stop {limit : Nat} {e : RawExpr} {s : List Symbol}
    (h : ∀ op pos s', s = .binary op pos :: s' → op.priority.1 ≤ limit) :
    Climbs limit (some e) s e s

/-- Climbing has one result. -/
lemma Climbs.unique {limit : Nat} {left : Option RawExpr} {s r r' : List Symbol} {t t' : RawExpr}
    (h : Climbs limit left s t r) (h' : Climbs limit left s t' r') : t = t' ∧ r = r' := by
  induction h generalizing t' r' with
  | operand _ ih =>
    cases h' with
    | operand h' => exact ih h'
  | unary _ _ ihoperand ih =>
    cases h' with
    | unary hoperand' h' =>
      obtain ⟨rfl, rfl⟩ := ihoperand hoperand'
      exact ih h'
  | binary hlimit _ _ ihright ih =>
    cases h' with
    | binary _ hright' h' =>
      obtain ⟨rfl, rfl⟩ := ihright hright'
      exact ih h'
    | stop hstop => exact absurd hlimit (Nat.not_lt.2 (hstop _ _ _ rfl))
  | stop hstop =>
    cases h' with
    | binary hlimit => exact absurd hlimit (Nat.not_lt.2 (hstop _ _ _ rfl))
    | stop => exact ⟨rfl, rfl⟩

/-- **Climbing puts an allowed tree together again**, and goes on behind it.

**Proof sketch.** Induction over the operators of the tree. Behind the left operand of a binary
operator climbing goes on with that operator, which binds more tightly than the limit. The right
operand is put together under the limit of the operator and ends there: the operator that follows the
whole tree does not bind more tightly, for the right edge of the tree ends before it. The same holds
of the operand of a unary operator. -/
theorem climbs_symbols {t x : RawExpr} (ht : t.Separated) :
    ∀ {limit : Nat} {r r' : List Symbol}, t.OpensAbove limit →
      (∀ op pos s, r = .binary op pos :: s → t.ClosesAt op.priority.1) →
      Climbs limit (some t) r x r' → Climbs limit none (t.symbols ++ r) x r' := by
  induction t using Expr.operatorInduction generalizing x with
  | simple e he =>
    intro limit r r' _ _ h
    rw [Expr.symbols_of_isSimple he]
    exact .operand h
  | unary op operand pos ih =>
    intro limit r r' _ hcloses h
    refine .unary (ih ht.2 (Expr.separatesOperands_unary_iff.1 ht.1) ?_ (.stop ?_)) h
    · exact fun o p s hr => (hcloses o p s hr).2
    · exact fun o p s hr => (hcloses o p s hr).1
  | binary op left right pos ihl ihr =>
    intro limit r r' hopens hcloses h
    obtain ⟨hseparates, hleft, hright⟩ := ht
    obtain ⟨hlcloses, hropens⟩ := Expr.separatesOperands_binary_iff.1 hseparates
    rw [Expr.symbols, List.append_assoc, List.cons_append]
    refine ihl hleft hopens.2 ?_ (.binary hopens.1 (ihr hright hropens ?_ (.stop ?_)) h)
    · rintro o p s hr
      obtain ⟨heq, -⟩ := List.cons.inj hr
      obtain ⟨rfl, -⟩ := Symbol.binary.inj heq
      exact hlcloses
    · exact fun o p s hr => (hcloses o p s hr).2
    · exact fun o p s hr => (hcloses o p s hr).1

/-- **Only one tree of some symbols is allowed.** -/
theorem Expr.eq_of_symbols_eq {t t' : RawExpr} (ht : t.Separated) (ht' : t'.Separated)
    (h : t.symbols = t'.symbols) : t = t' := by
  have hclimbs : ∀ e : RawExpr, e.Separated → Climbs 0 none e.symbols e [] := by
    intro e he
    have hrun := climbs_symbols he e.opensAbove_zero (r := []) (fun _ _ _ hr => nomatch hr)
      (.stop fun _ _ _ hr => nomatch hr)
    rwa [List.append_nil] at hrun
  exact ((hclimbs t ht).unique (h ▸ hclimbs t' ht')).1

/-! ## Tokens -/

/-- **The symbols that some tokens stand for**, up to the tokens left over: an operator is one token,
and the tokens of an operand are those that are parsed as it. With `true` an operand begins at the
front; with `false` one has ended there. -/
inductive Renders : Bool → List Token → List Symbol → List Token → Prop
  | operand {n : Nat} {ts mid rest : List Token} {e : RawExpr} {s : List Symbol}
    (he : Grammar.simple (.level n) ts = .ok (e, mid)) (h : Renders false mid s rest) :
    Renders true ts (.operand e :: s) rest
  | unary {op : UnaryOp} {ts rest : List Token} {s : List Symbol}
    (hop : UnaryOp.ofKind? (front ts).kind = some op) (h : Renders true ts.tail s rest) :
    Renders true ts (.unary op (front ts).pos :: s) rest
  | binary {op : BinaryOp} {ts rest : List Token} {s : List Symbol}
    (hop : BinaryOp.ofKind? (front ts).kind = some op) (h : Renders true ts.tail s rest) :
    Renders false ts (.binary op (front ts).pos :: s) rest
  | done (ts : List Token) : Renders false ts [] ts

namespace Renders

variable {b : Bool} {ts mid rest : List Token} {s s' : List Symbol}

lemma append (h : Renders b ts s mid) (h' : Renders false mid s' rest) :
    Renders b ts (s ++ s') rest := by
  induction h with
  | operand he _ ih => exact .operand he (ih h')
  | unary hop _ ih => exact .unary hop (ih h')
  | binary hop _ ih => exact .binary hop (ih h')
  | done => exact h'

lemma suffix (h : Renders b ts s rest) : rest <:+ ts := by
  induction h with
  | operand he _ ih =>
    exact ih.trans (Grammar.simple_faithful (Grammar.level_faithful _) _ _ _ he).1
  | unary _ _ ih => exact ih.trans (List.tail_suffix _)
  | binary _ _ ih => exact ih.trans (List.tail_suffix _)
  | done => exact List.suffix_rfl

/-- Nothing is left in front of an operator. -/
lemma not_binary {op : BinaryOp} (hop : BinaryOp.ofKind? (front ts).kind = some op) :
    ¬Renders true ts.tail s ts := by
  intro h
  have hlen := h.suffix.length_le
  cases ts with
  | nil => cases hop
  | cons t ts => simp at hlen

end Renders

namespace Grammar

/-- What is parsed does not depend on the level. -/
lemma simple_level_unique {m n : Nat} {ts : List Token} {x y : RawExpr × List Token}
    (hx : simple (level m) ts = .ok x) (hy : simple (level n) ts = .ok y) : x = y := by
  have hx' := simple_within (level_within (le_max_left m n)) ts x hx
  have hy' := simple_within (level_within (le_max_right m n)) ts y hy
  exact Except.ok.inj (hx'.symm.trans hy')

/-- No operand begins with a unary operator. -/
lemma simple_unary {g : Grammar} {ts : List Token} {op : UnaryOp}
    (hop : UnaryOp.ofKind? (front ts).kind = some op) (x : RawExpr × List Token) :
    simple g ts ≠ .ok x := by
  -- a token that begins an operand is no operator
  have hother : ∀ {k}, (front ts).kind = k → UnaryOp.ofKind? k = none → False := by
    intro k hk hnone
    rw [hk, hnone] at hop
    cases hop
  have hprimary : (primary g).Ensures (fun _ _ => False) ts := by
    refine ensures_peek_bind ?_
    split
    · next hk => exact (hother hk rfl).elim
    · next hk => exact (hother hk rfl).elim
    · exact ensures_failAt _ _
  have hsimple : (simple g).Ensures (fun _ _ => False) ts := by
    refine ensures_peek_bind ?_
    split
    iterate 8 next hk => exact (hother hk rfl).elim
    exact hprimary.bind fun _ _ _ h => h.elim
  exact fun hx => (hsimple x.1 x.2 hx).2

end Grammar

/-- **Tokens stand for symbols in one way only.** -/
theorem Renders.unique {b : Bool} {ts rest : List Token} {s s' : List Symbol}
    (h : Renders b ts s rest) (h' : Renders b ts s' rest) : s = s' := by
  induction h generalizing s' with
  | operand he h ih =>
    cases h' with
    | operand he' h' =>
      obtain ⟨rfl, rfl⟩ := Prod.mk.inj (Grammar.simple_level_unique he he')
      rw [ih h']
    | unary hop => exact absurd he (Grammar.simple_unary hop _)
  | unary hop h ih =>
    cases h' with
    | operand he => exact absurd he (Grammar.simple_unary hop _)
    | unary hop' h' =>
      obtain rfl := Option.some.inj (hop.symm.trans hop')
      rw [ih h']
  | binary hop h ih =>
    cases h' with
    | binary hop' h' =>
      obtain rfl := Option.some.inj (hop.symm.trans hop')
      rw [ih h']
    | done => exact absurd h (Renders.not_binary hop)
  | done ts =>
    cases h' with
    | binary hop h' => exact absurd h' (Renders.not_binary hop)
    | done => rfl

/-! ## Parsed expressions -/

/-- **The tree of some tokens for a limit**, up to the tokens left over. -/
structure Expr.ClimbedTo (limit : Nat) (ts : List Token) (t : RawExpr) (rest : List Token) :
    Prop where
  /-- The tokens that are taken stand for the symbols of the tree. -/
  renders : Renders true ts t.symbols rest
  /-- The operators along the left spine bind more tightly than the limit. -/
  leftSpine : ∀ o ∈ t.leftSpine, limit < o.priority.1
  /-- All nodes of the tree separate their operands. -/
  nodes : ∀ e, Node.expr e ∈ (Node.expr t).nodes → e.SeparatesOperands
  /-- What follows is no operator that binds more tightly than the limit. -/
  stops : ∀ op, BinaryOp.ofKind? (front rest).kind = some op → op.priority.1 ≤ limit
  /-- No other tree that the tokens stand for is allowed. -/
  unique : ∀ t', Renders true ts t'.symbols rest → t'.Separated → t' = t

namespace Grammar

/-- A grammar whose expressions are rendered by the tokens that are taken. -/
structure Rendering (g : Grammar) : Prop where
  expr : ∀ limit ts, (g.expr limit).Ensures (fun e rest => Renders true ts e.symbols rest) ts
  operators : ∀ limit left ts₀ ts, Renders true ts₀ left.symbols ts →
    (g.operators limit left).Ensures (fun e rest => Renders true ts₀ e.symbols rest) ts

lemma operatorsRule_rendering {g : Grammar} (hg : g.Rendering) (limit : Nat) (left : RawExpr)
    (ts₀ ts : List Token) (hleft : Renders true ts₀ left.symbols ts) :
    (operatorsRule g limit left).Ensures (fun e rest => Renders true ts₀ e.symbols rest) ts := by
  refine ensures_peek_bind ?_
  split
  · next op hop =>
    refine .ite (fun _ => ?_) fun _ => .pure hleft
    refine ensures_advance_bind ((hg.expr _ _).bind fun right rest _ hright => ?_)
    exact hg.operators _ _ _ _ (hleft.append (.binary hop hright))
  · exact .pure hleft

/-- **Every level** takes the tokens of the expressions it gives. -/
theorem level_rendering (n : Nat) : (level n).Rendering := by
  induction n with
  | zero => exact ⟨fun _ _ => ensures_tooDeep, fun _ _ _ _ _ => ensures_tooDeep⟩
  | succ n ih =>
    refine ⟨fun limit ts => ensures_peek_bind ?_, operatorsRule_rendering ih⟩
    split
    · next op hop =>
      refine ensures_advance_bind ((ih.expr _ _).bind fun operand rest _ hoperand => ?_)
      exact operatorsRule_rendering ih _ _ _ _ (.unary hop hoperand)
    · have hsimple : (simple (level n)).Ensures (fun e rest => Renders true ts e.symbols rest)
          ts := by
        intro e rest hrun
        obtain ⟨hsuffix, -, -, hsimple⟩ := simple_faithful (level_faithful n) ts e rest hrun
        refine ⟨hsuffix, ?_⟩
        show Renders true ts e.symbols rest
        rw [Expr.symbols_of_isSimple hsimple]
        exact .operand hrun (.done rest)
      exact hsimple.bind fun e rest _ he => operatorsRule_rendering ih _ _ _ _ he

/-- **Precedence climbing gives the one tree the priorities allow.** If the parser of expressions, at
any level and with any limit, accepts some tokens, it takes those that its tree stands for. The
operators along the left spine bind more tightly than the limit, the operands of all nodes are
separated as the priorities demand, and no operator that binds more tightly follows. No other tree
that stands for the same tokens has its operands separated.

**Proof sketch.** The loop keeps that the operand read so far is rendered by the tokens taken, and
that its right edge ends before the next operator. For uniqueness, the tokens stand for one list of
symbols only: what an operand is does not depend on the level it is parsed at. Climbing on the symbols
of an allowed tree gives that tree, so two allowed trees with the same symbols are the same. -/
theorem expr_climbedTo {n limit : Nat} {ts rest : List Token} {t : RawExpr}
    (h : (level n).expr limit ts = .ok (t, rest)) : t.ClimbedTo limit ts rest := by
  obtain ⟨-, -, hgrammatical, hopens, hstops⟩ := (level_faithful n).expr limit ts t rest h
  have hrenders := ((level_rendering n).expr limit ts t rest h).2
  have hnodes : ∀ e, Node.expr e ∈ (Node.expr t).nodes → e.SeparatesOperands :=
    fun e he => Expr.Regular.separatesOperands (hgrammatical _ he)
  refine ⟨hrenders, Expr.opensAbove_iff.1 hopens, hnodes, fun op hop => (hstops op hop).1, ?_⟩
  intro t' hrenders' hseparated
  exact Expr.eq_of_symbols_eq hseparated (Expr.separated_of_nodes hnodes)
    (hrenders'.unique hrenders)

/-- The tokens of `and d`. -/
def andTokens : List Token := [⟨.kwAnd, ⟨1, 12⟩, "and"⟩, ⟨.ident, ⟨1, 16⟩, "d"⟩, ⟨.eof, ⟨1, 17⟩, ""⟩]

/-- The tokens of `-a ^ b * c and d`. -/
def negatedPower : List Token :=
  [⟨.minus, ⟨1, 1⟩, "-"⟩, ⟨.ident, ⟨1, 2⟩, "a"⟩, ⟨.caret, ⟨1, 4⟩, "^"⟩, ⟨.ident, ⟨1, 6⟩, "b"⟩,
    ⟨.star, ⟨1, 8⟩, "*"⟩, ⟨.ident, ⟨1, 10⟩, "c"⟩] ++ andTokens

/-- The tree of `-a ^ b * c`: the power is negated, and the product is taken last. -/
def negatedPowerTree : RawExpr :=
  .binary .mul (.unary .neg (.binary .pow (.name "a" ⟨1, 2⟩) (.name "b" ⟨1, 6⟩) ⟨1, 4⟩) ⟨1, 1⟩)
    (.name "c" ⟨1, 10⟩) ⟨1, 8⟩

theorem expr_climbedTo_negatedPower :
    (level 9).expr 2 negatedPower = .ok (negatedPowerTree, andTokens) ∧
      negatedPowerTree.ClimbedTo 2 negatedPower andTokens := by
  have hparse : (level 9).expr 2 negatedPower = .ok (negatedPowerTree, andTokens) := by rfl
  exact ⟨hparse, expr_climbedTo hparse⟩

end Grammar

end ScriptCore
