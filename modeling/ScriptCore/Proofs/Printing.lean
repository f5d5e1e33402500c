import ScriptCore.Proofs.TreeShapes
import ScriptCore.Proofs.ParserRuns

set_option relaxedAutoImplicit false
set_option autoImplicit false

/-!
# The canonical text of a tree

A tree is written as words in one way: every statement is followed by a semicolon, arguments stand in
parentheses, the items of a table are separated by commas, a method is written as a function statement with
its parameter `self`, and parentheses stand only where the tree has them. A word is what a token must say;
of a number it is the value, so that any numeral for the value spells it.

## Main definitions

* `ScriptCore.Word`, `ScriptCore.Word.Spells` — words, and the tokens that spell them.
* `ScriptCore.Block.words`, `ScriptCore.Program.words` — trees and programs as words.
* `ScriptCore.Spelled` — tokens that begin with given words.

## Main results

* `ScriptCore.Spelled.append_iff` — words behind other words.
* `ScriptCore.Expr.startsExpr_of_spelled`, `ScriptCore.Expr.not_assign_of_spelled` — how the tokens of an
  expression begin.
* `ScriptCore.Stmt.front_of_spelled` — how the tokens of a statement begin.
-/

namespace ScriptCore

/-! ## Words -/

/-- What a token says to the parser. -/
inductive Word
  | name (name : String)
  | number (value : Binary64)
  | string (value : String)
  /-- A keyword or a symbol, or the end of the input. -/
  | fixed (kind : Token.Kind)
deriving DecidableEq, Repr

/-- **A token spells a word**: a number is spelled by every numeral that denotes it. -/
def Word.Spells (t : Token) : Word → Prop
  | name n => t.kind = .ident ∧ t.lexeme = n
  | number value => t.kind = .number ∧ Numeral.literal? t.lexeme = some value
  | string value => t.kind = .string ∧ t.lexeme = value
  | fixed kind => t.kind = kind

/-- The names behind the first of a list. -/
def moreNamesWords : List Binder → List Word
  | [] => []
  | b :: bs => .fixed .comma :: .name b.name :: moreNamesWords bs

/-- Names separated by commas. -/
def namesWords : List Binder → List Word
  | [] => []
  | b :: bs => .name b.name :: moreNamesWords bs

/-- The parameters of a function, and the mark of extra arguments. -/
def paramWords : List Binder → Bool → List Word
  | [], false => []
  | [], true => [.fixed .ellipsis]
  | [b], false => [.name b.name]
  | b :: bs, variadic => .name b.name :: .fixed .comma :: paramWords bs variadic

mutual

/-- An expression as words. -/
def Expr.words : RawExpr → List Word
  | .nil _ => [.fixed .kwNil]
  | .varargs _ => [.fixed .ellipsis]
  | .bool value _ => [.fixed (if value then .kwTrue else .kwFalse)]
  | .number value _ => [.number value]
  | .string value _ => [.string value]
  | .name n _ => [.name n]
  | .member object member _ => object.words ++ [.fixed .dot, .name member]
  | .index object key _ => object.words ++ .fixed .lBracket :: (key.words ++ [.fixed .rBracket])
  | .call callee args isMethod _ =>
    (if isMethod then callee.methodWords else callee.words) ++
      .fixed .lParen :: (exprsWords args ++ [.fixed .rParen])
  | .function f => .fixed .kwFunction :: f.words
  | .table items _ => .fixed .lBrace :: (itemsWords items ++ [.fixed .rBrace])
  | .unary op operand _ => .fixed op.kind :: operand.words
  | .binary op left right _ => left.words ++ .fixed op.kind :: right.words
  | .group inner _ => .fixed .lParen :: (inner.words ++ [.fixed .rParen])

/-- The callee of a method call as words: the last element stands behind a colon. -/
def Expr.methodWords : RawExpr → List Word
  | .member object member _ => object.words ++ [.fixed .colon, .name member]
  | _ => []

/-- Expressions separated by commas. -/
def exprsWords : List RawExpr → List Word
  | [] => []
  | e :: es => e.words ++ moreExprsWords es

/-- The expressions behind the first of a list. -/
def moreExprsWords : List RawExpr → List Word
  | [] => []
  | e :: es => .fixed .comma :: (e.words ++ moreExprsWords es)

/-- The step of a loop, if it has one. -/
def stepWords : Option RawExpr → List Word
  | none => []
  | some e => .fixed .comma :: e.words

/-- An item of a table constructor as words. -/
def Item.words : Item String Binder → List Word
  | .positional value => value.words
  | .named name value => .name name :: .fixed .assign :: value.words
  | .keyed key value => .fixed .lBracket :: (key.words ++ .fixed .rBracket :: .fixed .assign :: value.words)

/-- Items separated by commas. -/
def itemsWords : List (Item String Binder) → List Word
  | [] => []
  | i :: is => i.words ++ moreItemsWords is

/-- The items behind the first of a list. -/
def moreItemsWords : List (Item String Binder) → List Word
  | [] => []
  | i :: is => .fixed .comma :: (i.words ++ moreItemsWords is)

/-- The parameters and the body of a function as words. -/
def Function.words : RawFunction → List Word
  | .mk params variadic body _ =>
    .fixed .lParen :: (paramWords params variadic ++ .fixed .rParen :: (body.words ++ [.fixed .kwEnd]))

/-- A statement as words. -/
def Stmt.words : RawStmt → List Word
  | .localVars vars [] _ => .fixed .kwLocal :: namesWords vars
  | .localVars vars (e :: es) _ =>
    .fixed .kwLocal :: (namesWords vars ++ .fixed .assign :: (e.words ++ moreExprsWords es))
  | .localFunction var f _ => .fixed .kwLocal :: .fixed .kwFunction :: .name var.name :: f.words
  | .functionDecl target f _ => .fixed .kwFunction :: (target.words ++ f.words)
  | .assign targets values _ => exprsWords targets ++ .fixed .assign :: exprsWords values
  | .compound op target value _ => target.words ++ .fixed op.assignment :: value.words
  | .expr e => e.words
  | .block body => .fixed .kwDo :: (body.words ++ [.fixed .kwEnd])
  | .conditional condition body rest _ => .fixed .kwIf :: (condition.words ++
      .fixed .kwThen :: (body.words ++ (rest.words ++ [.fixed .kwEnd])))
  | .whileLoop condition body _ => .fixed .kwWhile :: (condition.words ++
      .fixed .kwDo :: (body.words ++ [.fixed .kwEnd]))
  | .repeatLoop body condition _ =>
    .fixed .kwRepeat :: (body.words ++ .fixed .kwUntil :: condition.words)
  | .numericFor var start limit step body _ => .fixed .kwFor :: .name var.name :: .fixed .assign ::
      (start.words ++ .fixed .comma :: (limit.words ++ (stepWords step ++
        .fixed .kwDo :: (body.words ++ [.fixed .kwEnd]))))
  | .genericFor vars values body _ => .fixed .kwFor :: (namesWords vars ++
      .fixed .kwIn :: (exprsWords values ++ .fixed .kwDo :: (body.words ++ [.fixed .kwEnd])))
  | .ret values _ => .fixed .kwReturn :: exprsWords values
  | .leave _ => [.fixed .kwBreak]

/-- Statements as words, each with a semicolon. -/
def stmtsWords : List RawStmt → List Word
  | [] => []
  | s :: ss => s.words ++ .fixed .semicolon :: stmtsWords ss

/-- The rest of a conditional as words. -/
def Alternative.words : Alternative String Binder → List Word
  | .none => []
  | .otherwise body => .fixed .kwElse :: body.words
  | .elseIf condition body rest => .fixed .kwElseIf :: (condition.words ++
      .fixed .kwThen :: (body.words ++ rest.words))

/-- A block as words. -/
def Block.words : RawBlock → List Word
  | .mk _ stmts => stmtsWords stmts

end

/-- **A program as words**, with the names of its declarations, and the end of the input. -/
def Program.words (p : Program) : List Word :=
  (p.body.rename (nameOf p.locals) (binderOf p.locals)).words ++ [.fixed .eof]

/-! ## Spelled words -/

/-- **Tokens that begin with given words**, and the tokens behind them. -/
def Spelled : List Word → List Token → List Token → Prop
  | [], ts, rest => ts = rest
  | w :: ws, ts, rest => ∃ t mid, ts = t :: mid ∧ w.Spells t ∧ Spelled ws mid rest

namespace Spelled

variable {w : Word} {ws vs : List Word} {ts rest : List Token}

/-- Words behind other words. -/
lemma append_iff : Spelled (ws ++ vs) ts rest ↔ ∃ mid, Spelled ws ts mid ∧ Spelled vs mid rest := by
  induction ws generalizing ts with
  | nil => exact ⟨fun h => ⟨ts, rfl, h⟩, by rintro ⟨mid, rfl, h⟩; exact h⟩
  | cons w ws ih =>
    constructor
    · rintro ⟨t, mid, rfl, ht, h⟩
      obtain ⟨mid', h, h'⟩ := ih.1 h
      exact ⟨mid', ⟨t, mid, rfl, ht, h⟩, h'⟩
    · rintro ⟨mid', ⟨t, mid, rfl, ht, h⟩, h'⟩
      exact ⟨t, mid, rfl, ht, ih.2 ⟨mid', h, h'⟩⟩

lemma suffix (h : Spelled ws ts rest) : rest <:+ ts := by
  induction ws generalizing ts with
  | nil => exact h ▸ List.suffix_refl _
  | cons w ws ih =>
    obtain ⟨t, mid, rfl, -, h⟩ := h
    exact (ih h).trans (List.suffix_cons t mid)

/-- Tokens that spell words one by one. -/
lemma nil_iff : Spelled ws ts [] ↔ List.Forall₂ Word.Spells ts ws := by
  induction ws generalizing ts with
  | nil => exact List.forall₂_nil_right_iff.symm
  | cons w ws ih =>
    rw [List.forall₂_cons_right_iff]
    constructor
    · rintro ⟨t, mid, rfl, ht, h⟩
      exact ⟨t, mid, ht, ih.1 h, rfl⟩
    · rintro ⟨t, mid, ht, h, rfl⟩
      exact ⟨t, mid, rfl, ht, ih.2 h⟩

lemma ne_nil (h : Spelled ws ts rest) (hrest : rest ≠ []) : ts ≠ [] := by
  rintro rfl
  exact hrest (List.suffix_nil.1 h.suffix)

end Spelled

/-! ## How the words of a tree begin -/

open ScriptCore.Parser (front)

/-- Expressions that begin with none of their parts. -/
def Expr.isFirst : RawExpr → Bool
  | .member .. | .index .. | .call .. | .binary .. => false
  | _ => true

/-- The kind of the first token of such an expression. -/
def Expr.firstKind : RawExpr → Token.Kind
  | .nil _ => .kwNil
  | .varargs _ => .ellipsis
  | .bool value _ => if value then .kwTrue else .kwFalse
  | .number .. => .number
  | .string .. => .string
  | .name .. => .ident
  | .function _ => .kwFunction
  | .table .. => .lBrace
  | .unary op _ _ => op.kind
  | _ => .lParen

/-- Whether an expression can start with a token of this kind. -/
def Token.Kind.startsExpr : Token.Kind → Bool
  | .number | .string | .kwNil | .kwTrue | .kwFalse | .ellipsis | .lBrace | .kwFunction
  | .ident | .lParen | .minus | .kwNot | .hash => true
  | _ => false

namespace Expr

/-- **The tokens of an expression begin with a part of it** that has nothing in front. -/
structure BeginsWith (e : RawExpr) (rest : List Token) (first : RawExpr) (mid : List Token) : Prop where
  isFirst : first.isFirst
  not_assign : (front rest).kind ≠ .assign → (front mid).kind ≠ .assign
  isHead : e.isHead → first.isHead
  isSimple : e.isSimple → first.isSimple

/-- What stands behind an object belongs to the expression that begins with it. -/
lemma BeginsWith.of_object {object e first : RawExpr} {mid rest mid' : List Token}
    (h : object.BeginsWith mid first mid') (hobject : object.isHead)
    (hmid : (front mid).kind ≠ .assign) : e.BeginsWith rest first mid' where
  isFirst := h.isFirst
  not_assign _ := h.not_assign hmid
  isHead _ := h.isHead hobject
  isSimple _ := h.isSimple (isSimple_of_isHead hobject)

end Expr

/-- **The first part of an expression**: the tokens of an expression begin with those of a part without
operators, elements and calls behind it. -/
theorem Expr.exists_first : ∀ (e : RawExpr) {ts rest : List Token}, e.Grammatical →
    Spelled e.words ts rest → ∃ first mid, e.BeginsWith rest first mid ∧ Spelled first.words ts mid
  | .nil pos, ts, rest, _, h => ⟨.nil pos, rest, ⟨rfl, id, id, id⟩, h⟩
  | .varargs pos, ts, rest, _, h => ⟨.varargs pos, rest, ⟨rfl, id, id, id⟩, h⟩
  | .bool b pos, ts, rest, _, h => ⟨.bool b pos, rest, ⟨rfl, id, id, id⟩, h⟩
  | .number v pos, ts, rest, _, h => ⟨.number v pos, rest, ⟨rfl, id, id, id⟩, h⟩
  | .string s pos, ts, rest, _, h => ⟨.string s pos, rest, ⟨rfl, id, id, id⟩, h⟩
  | .name n pos, ts, rest, _, h => ⟨.name n pos, rest, ⟨rfl, id, id, id⟩, h⟩
  | .function f, ts, rest, _, h => ⟨.function f, rest, ⟨rfl, id, id, id⟩, h⟩
  | .table is pos, ts, rest, _, h => ⟨.table is pos, rest, ⟨rfl, id, id, id⟩, h⟩
  | .unary op e pos, ts, rest, _, h => ⟨.unary op e pos, rest, ⟨rfl, id, id, id⟩, h⟩
  | .group e pos, ts, rest, _, h => ⟨.group e pos, rest, ⟨rfl, id, id, id⟩, h⟩
  | .member object _ pos, ts, rest, he, h => by
    obtain ⟨mid, h, t, mid', rfl, ht : t.kind = _, -⟩ := Spelled.append_iff.1 h
    obtain ⟨first, mid'', hbegins, hfirst⟩ := exists_first object (he.child (.head _)) h
    exact ⟨first, mid'', hbegins.of_object he.regular (by rw [front, List.headD_cons, ht]; decide), hfirst⟩
  | .index object key pos, ts, rest, he, h => by
    obtain ⟨mid, h, t, mid', rfl, ht : t.kind = _, -⟩ := Spelled.append_iff.1 h
    obtain ⟨first, mid'', hbegins, hfirst⟩ := exists_first object (he.child (.head _)) h
    exact ⟨first, mid'', hbegins.of_object he.regular (by rw [front, List.headD_cons, ht]; decide), hfirst⟩
  | .call callee args false pos, ts, rest, he, h => by
    obtain ⟨mid, h, t, mid', rfl, ht : t.kind = _, -⟩ := Spelled.append_iff.1 h
    obtain ⟨first, mid'', hbegins, hfirst⟩ := exists_first callee (he.child (.head _)) h
    exact ⟨first, mid'', hbegins.of_object he.regular.1 (by rw [front, List.headD_cons, ht]; decide),
      hfirst⟩
  | .call callee args true pos, ts, rest, he, h => by
    obtain ⟨mid, h, -⟩ := Spelled.append_iff.1 h
    have hcallee : callee.Grammatical := he.child (.head _)
    cases callee with
    | member object member mpos =>
      obtain ⟨mid, h, t, mid', rfl, ht : t.kind = _, -⟩ := Spelled.append_iff.1 h
      obtain ⟨first, mid'', hbegins, hfirst⟩ := exists_first object (hcallee.child (.head _)) h
      exact ⟨first, mid'', hbegins.of_object hcallee.regular
        (by rw [front, List.headD_cons, ht]; decide), hfirst⟩
    | _ => cases he.regular.2 rfl
  | .binary op left right pos, ts, rest, he, h => by
    obtain ⟨mid, h, t, mid', rfl, ht : t.kind = _, -⟩ := Spelled.append_iff.1 h
    obtain ⟨first, mid'', hbegins, hfirst⟩ := exists_first left (he.child (.head _)) h
    refine ⟨first, mid'', ⟨hbegins.isFirst, fun _ => hbegins.not_assign ?_, nofun, nofun⟩, hfirst⟩
    rw [front, List.headD_cons, ht]
    cases op <;> decide

namespace Expr

variable {e : RawExpr} {ts rest : List Token}

lemma front_of_isFirst (he : e.isFirst) (h : Spelled e.words ts rest) :
    (front ts).kind = e.firstKind := by
  cases e with
  | member | index | call | binary => cases he
  | number | string | name =>
    obtain ⟨t, mid, rfl, ht, -⟩ := h
    exact ht.1
  | _ =>
    obtain ⟨t, mid, rfl, ht, -⟩ := h
    exact ht

/-- An expression begins with a token that can start one. -/
theorem startsExpr_of_spelled (he : e.Grammatical) (h : Spelled e.words ts rest) :
    (front ts).kind.startsExpr := by
  obtain ⟨first, mid, hbegins, hfirst⟩ := exists_first e he h
  rw [front_of_isFirst hbegins.isFirst hfirst]
  cases first with
  | bool value => cases value <;> rfl
  | unary op => cases op <;> rfl
  | _ => rfl

/-- A name or a parenthesis stands in front of elements and calls. -/
lemma front_of_isHead (he : e.Grammatical) (hhead : e.isHead) (h : Spelled e.words ts rest) :
    (front ts).kind = .ident ∨ (front ts).kind = .lParen := by
  obtain ⟨first, mid, hbegins, hfirst⟩ := exists_first e he h
  rw [front_of_isFirst hbegins.isFirst hfirst]
  have hhead' := hbegins.isHead hhead
  have hisFirst := hbegins.isFirst
  cases first with
  | name => exact .inl rfl
  | group => exact .inr rfl
  | member | index | call => cases hisFirst
  | _ => cases hhead'

/-- An expression without operators does not begin with one. -/
lemma not_unary_of_isSimple (he : e.Grammatical) (hsimple : e.isSimple)
    (h : Spelled e.words ts rest) : UnaryOp.ofKind? (front ts).kind = none := by
  obtain ⟨first, mid, hbegins, hfirst⟩ := exists_first e he h
  rw [front_of_isFirst hbegins.isFirst hfirst]
  have hsimple' := hbegins.isSimple hsimple
  cases first with
  | bool value => cases value <;> rfl
  | unary => cases hsimple'
  | _ => rfl

/-- The name an expression begins with is not assigned to. -/
lemma not_assign_of_spelled (he : e.Grammatical) (h : Spelled e.words ts rest)
    (hname : (front ts).kind = .ident) (hrest : (front rest).kind ≠ .assign) :
    (front ts.tail).kind ≠ .assign := by
  obtain ⟨first, mid, hbegins, hfirst⟩ := exists_first e he h
  have hkind := front_of_isFirst hbegins.isFirst hfirst
  rw [hname] at hkind
  have hisFirst := hbegins.isFirst
  cases first with
  | name =>
    obtain ⟨t, mid', rfl, -, rfl⟩ := hfirst
    exact hbegins.not_assign hrest
  | bool value => cases value <;> cases hkind
  | unary op => cases op <;> cases hkind
  | _ => cases hkind

end Expr

namespace Stmt

variable {s : RawStmt} {ts rest : List Token}

/-- **The first token of a statement** ends no block, and it tells whether the statement leaves its
block. -/
theorem front_of_spelled (hs : s.Grammatical) (h : Spelled s.words ts rest) :
    Grammar.endsBlock (front ts).kind = false ∧
      ((front ts).kind = .kwReturn ∨ (front ts).kind = .kwBreak ↔ s.isExit) := by
  -- a statement that begins with an expression
  have hhead : ∀ {e : RawExpr} {mid : List Token}, e.Grammatical → e.isHead →
      Spelled e.words ts mid → s.isExit = false → Grammar.endsBlock (front ts).kind = false ∧
        ((front ts).kind = .kwReturn ∨ (front ts).kind = .kwBreak ↔ s.isExit) := by
    intro e mid he hhead h hexit
    rw [hexit]
    rcases Expr.front_of_isHead he hhead h with hk | hk <;> rw [hk] <;> decide
  have hregular := hs.regular
  cases s with
  | assign targets values pos =>
    cases targets with
    | nil => exact absurd rfl hregular.1
    | cons e es =>
      obtain ⟨mid, h, -⟩ := Spelled.append_iff.1 h
      obtain ⟨mid, h, -⟩ := Spelled.append_iff.1 h
      exact hhead (hs.child (.head _)) (Expr.isHead_of_isAssignable
        (hregular.2.2 e List.mem_cons_self)) h rfl
  | compound op target value pos =>
    obtain ⟨mid, h, -⟩ := Spelled.append_iff.1 h
    exact hhead (hs.child (.head _)) (Expr.isHead_of_isAssignable hregular.2) h rfl
  | expr e => exact hhead (hs.child (.head _)) (Expr.isHead_of_isCall hregular) h rfl
  | localVars vars values pos =>
    cases values <;>
    · obtain ⟨t, mid, rfl, ht : t.kind = _, -⟩ := h
      rw [front, List.headD_cons, ht]
      simp [Grammar.endsBlock, isExit]
  | _ =>
    obtain ⟨t, mid, rfl, ht : t.kind = _, -⟩ := h
    rw [front, List.headD_cons, ht]
    simp [Grammar.endsBlock, isExit]

end Stmt

end ScriptCore
