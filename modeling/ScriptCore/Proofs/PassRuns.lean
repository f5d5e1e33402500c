import ScriptCore.Proofs.ParserRuns
import ScriptCore.Proofs.Running
import ScriptCore.Proofs.SinglePass

set_option relaxedAutoImplicit false
set_option autoImplicit false

/-!
# Runs of single passes

When a parser that binds names in the same pass follows a parser that does not: over the same tokens it stops
at the same place, its result is what binding makes of the other one's result, and so are its scopes. It refuses
what the other one refuses, and for the same cause. Besides, it never asks for a token behind the last one, and
leaves as many scopes and functions open as it has found, also where it refuses its input.

For parsers that are sequences of others it is enough to follow both sequences at once.

## Main definitions

* `ScriptCore.Scopes.SameHeight` — as many scopes and functions are open.
* `ScriptCore.SinglePass.Complete` — tokens of a whole source.
* `ScriptCore.SinglePass.Follows` — a single pass follows a parser.

## Main results

* `ScriptCore.SinglePass.Follows.bind` — one parser behind another one.
* `ScriptCore.SinglePass.Follows.within` — a scope of its own.
* `ScriptCore.SinglePass.follows_advance_bind` and others — a token that is taken, and what follows.
-/

namespace ScriptCore

/-! ## Heights of scopes -/

namespace Scopes

/-- **As many scopes are open**, in as many functions. -/
def SameHeight (s s' : Scopes) : Prop := s'.visible.length = s.visible.length ∧ s'.depth = s.depth

variable {s s' s'' : Scopes}

@[refl]
lemma SameHeight.refl (s : Scopes) : s.SameHeight s := ⟨rfl, rfl⟩

lemma SameHeight.trans (h : s.SameHeight s') (h' : s'.SameHeight s'') : s.SameHeight s'' :=
  ⟨h'.1.trans h.1, h'.2.trans h.2⟩

/-- A change of the scopes that neither opens nor closes any. -/
def Flat {α : Type} (change : Binding α) : Prop := ∀ s : Scopes, s.SameHeight (change s).2

section

variable {α γ : Type}

lemma flat_pure (a : α) : Flat (pure a : Binding α) := fun s => .refl s

lemma Flat.bind {change : Binding α} {f : α → Binding γ} (h : Flat change) (hf : ∀ a, Flat (f a)) :
    Flat (change >>= f) := fun s => (h s).trans (hf _ _)

lemma Flat.mapM {f : α → Binding γ} (hf : ∀ a, Flat (f a)) : ∀ as : List α, Flat (as.mapM f)
  | [] => flat_pure []
  | a :: as => by
    rw [List.mapM_cons]
    exact (hf a).bind fun _ => (Flat.mapM hf as).bind fun _ => flat_pure _

lemma Flat.forM {f : α → Binding PUnit} (hf : ∀ a, Flat (f a)) : ∀ as : List α, Flat (as.forM f)
  | [] => flat_pure _
  | a :: as => (hf a).bind fun _ => Flat.forM hf as

end

lemma flat_declare (b : Binder) : Flat (declare b) := fun s => .refl s

lemma flat_bind (name : String) (id : LocalId) : Flat (Scopes.bind name id) := by
  intro s
  obtain ⟨locals, _ | ⟨scope, rest⟩, depth⟩ := s
  · exact .refl _
  · exact ⟨rfl, rfl⟩

lemma flat_introduce (b : Binder) : Flat (introduce b) :=
  (flat_declare b).bind fun id => (flat_bind b.name id).bind fun _ => flat_pure id

/-- A scope that is closed again. -/
lemma SameHeight.exit (h : (enter s).2.SameHeight s') : s.SameHeight (exit s').2 := by
  obtain ⟨hvisible, hdepth⟩ := h
  refine ⟨?_, hdepth⟩
  change s'.visible.tail.length = _
  rw [List.length_tail, hvisible]
  rfl

/-- A function that is left again. -/
lemma SameHeight.exitFunction (h : (enterFunction s).2.SameHeight s') : s.SameHeight (exitFunction s').2 := by
  obtain ⟨hvisible, hdepth⟩ := h
  constructor
  · change s'.visible.tail.length = _
    rw [List.length_tail, hvisible]
    rfl
  · change s'.depth - 1 = _
    rw [hdepth]
    rfl

end Scopes

namespace SinglePass

/-! ## Tokens of a source -/

/-- **The tokens of a whole source**: they end with the end of the input, and their numerals have values. -/
structure Complete (tokens : List Token) : Prop where
  /-- Only the last token is the end of the input. -/
  ends : ∃ found eof, tokens = found ++ [eof] ∧ eof.kind = .eof ∧ ∀ t ∈ found, t.kind ≠ .eof
  /-- Numerals have values. -/
  valued : ∀ t ∈ tokens, t.kind = .number → Numeral.literal? t.lexeme ≠ none

variable {tokens : List Token} {i : ℕ}

/-- Behind a token that is not the end of the input stands another one. -/
lemma Complete.succ_lt (ht : Complete tokens) (hi : i < tokens.length) (hk : tokens[i].kind ≠ .eof) :
    i + 1 < tokens.length := by
  obtain ⟨found, eof, rfl, heof, -⟩ := ht.ends
  rw [List.length_append, List.length_singleton] at hi ⊢
  by_contra hlast
  obtain rfl : i = found.length := by omega
  simp only [List.getElem_concat_length] at hk
  exact hk heof

lemma front_drop (hi : i < tokens.length) : Parser.front (tokens.drop i) = tokens[i] := by
  rw [List.drop_eq_getElem_cons hi]
  rfl

lemma tail_drop (i : ℕ) : (tokens.drop i).tail = tokens.drop (i + 1) := List.tail_drop

/-! ## Following a parser -/

variable {α β γ δ : Type}

/-- **A single pass follows a parser** from the index `i` and the scopes `s` on. Where the parser accepts tokens
with a result, the pass accepts the same ones, up to an index that is at least `lo`; its result and its scopes
are those `out` makes of the result. Where the parser refuses the tokens, the pass refuses them for the same
cause, which is neither a numeral without a value nor a nesting that is too deep. In both cases it stands at a
token, not in front of the place it began at, with as many scopes and functions open. -/
inductive Follows (tokens : List Token) (lo : ℕ) (out : β → α × Scopes) (i : ℕ) (s : Scopes) (P : Parser β)
    (Q : Pass α) : Prop
  | accepts {b : β} {j : ℕ} : P (tokens.drop i) = .ok (b, tokens.drop j) →
      Q tokens ⟨i, s⟩ = (.ok (out b).1, ⟨j, (out b).2⟩) → i ≤ j → lo ≤ j → j < tokens.length →
      s.SameHeight (out b).2 → Follows tokens lo out i s P Q
  | refuses {e : ParseError} {j : ℕ} {s' : Scopes} : P (tokens.drop i) = .error e →
      Q tokens ⟨i, s⟩ = (.error (.refused e), ⟨j, s'⟩) → e.cause ≠ .noValue → e.cause ≠ .tooDeep →
      i ≤ j → j < tokens.length → s.SameHeight s' → Follows tokens lo out i s P Q

variable {lo i i' : ℕ} {s s' : Scopes} {out : β → α × Scopes} {P P' : Parser β} {Q Q' : Pass α}

lemma bind_run (Q : Pass α) (f : α → Pass γ) (tokens : List Token) (c : Cursor) :
    (Q >>= f) tokens c = andThen (Q tokens c) fun a => f a tokens := bind_apply (Q tokens) _ c

/-- Going on behind a step that both make. -/
lemma Follows.step (h : Follows tokens lo out i' s' P' Q') (hP : P (tokens.drop i) = P' (tokens.drop i'))
    (hQ : Q tokens ⟨i, s⟩ = Q' tokens ⟨i', s'⟩) (hi : i ≤ i') (hs : s.SameHeight s') :
    Follows tokens lo out i s P Q := by
  cases h with
  | accepts hrun hrun' hj hlo hlt hheight =>
    exact .accepts (hP.trans hrun) (hQ.trans hrun') (hi.trans hj) hlo hlt (hs.trans hheight)
  | refuses hrun hrun' hvalue hdeep hj hlt hheight =>
    exact .refuses (hP.trans hrun) (hQ.trans hrun') hvalue hdeep (hi.trans hj) hlt (hs.trans hheight)

lemma Follows.mono {lo' : ℕ} (h : Follows tokens lo out i s P Q) (hlo : lo' ≤ lo) :
    Follows tokens lo' out i s P Q := by
  cases h with
  | accepts hrun hrun' hj hlo' hlt hheight =>
    exact .accepts hrun hrun' hj (hlo.trans hlo') hlt hheight
  | refuses hrun hrun' hvalue hdeep hj hlt hheight =>
    exact .refuses hrun hrun' hvalue hdeep hj hlt hheight

/-- **One parser behind another one.** -/
theorem Follows.bind {lo' : ℕ} {out' : δ → γ × Scopes} {f : β → Parser δ} {f' : α → Pass γ}
    (h : Follows tokens lo out i s P Q)
    (hf : ∀ b j, i ≤ j → lo ≤ j → j < tokens.length →
      Follows tokens lo' out' j (out b).2 (f b) (f' (out b).1)) :
    Follows tokens lo' out' i s (P >>= f) (Q >>= f') := by
  have hP := Parser.bind_run P f (tokens.drop i)
  have hQ := bind_run Q f' tokens ⟨i, s⟩
  cases h with
  | accepts hrun hrun' hj hlo hlt hheight =>
    rw [hrun] at hP
    rw [hrun', andThen_ok] at hQ
    exact (hf _ _ hj hlo hlt).step hP hQ hj hheight
  | refuses hrun hrun' hvalue hdeep hj hlt hheight =>
    rw [hrun] at hP
    rw [hrun', andThen_error] at hQ
    exact .refuses hP hQ hvalue hdeep hj hlt hheight

lemma Follows.pure {b : β} {a : α} (hi : i < tokens.length) (hlo : lo ≤ i) (h : out b = (a, s)) :
    Follows tokens lo out i s (Pure.pure b) (Pure.pure a) := by
  refine .accepts rfl ?_ le_rfl hlo hi ?_
  · rw [h]
    rfl
  · rw [h]

lemma follows_failAt {cause : ParseError.Cause} (hi : i < tokens.length) (hvalue : cause ≠ .noValue)
    (hdeep : cause ≠ .tooDeep) (pos : Position) :
    Follows tokens lo out i s (Parser.failAt pos cause) (failAt pos cause) :=
  .refuses rfl rfl hvalue hdeep le_rfl hi (.refl _)

lemma Follows.ite {p : Prop} [Decidable p] (h : p → Follows tokens lo out i s P Q)
    (h' : ¬ p → Follows tokens lo out i s P' Q') :
    Follows tokens lo out i s (if p then P else P') (if p then Q else Q') := by
  split
  · next hp => exact h hp
  · next hp => exact h' hp

/-- One of two parsers in front of the same one. -/
lemma Follows.ite_bind {p : Prop} [Decidable p] {lo' : ℕ} {out' : δ → γ × Scopes} {f : β → Parser δ}
    {f' : α → Pass γ} (h : p → Follows tokens lo out i s P Q) (h' : ¬ p → Follows tokens lo out i s P' Q')
    (hf : ∀ b j, i ≤ j → lo ≤ j → j < tokens.length →
      Follows tokens lo' out' j (out b).2 (f b) (f' (out b).1)) :
    Follows tokens lo' out' i s (if p then P >>= f else P' >>= f) (if p then Q >>= f' else Q' >>= f') :=
  .ite (fun hp => (h hp).bind hf) fun hp => (h' hp).bind hf

/-! ## Scopes -/

/-- A change of the scopes that the parser has no part in. -/
lemma follows_onScopes_bind {change : Binding γ} {f' : γ → Pass α} (hflat : Scopes.Flat change)
    (h : Follows tokens lo out i (change s).2 P (f' (change s).1)) :
    Follows tokens lo out i s P (onScopes change >>= f') :=
  h.step rfl rfl le_rfl (hflat s)

/-- A name that is bound where it is read. -/
lemma follows_nameExpr_bind {name : String} {pos : Position} {f' : BoundExpr → Pass α}
    (h : Follows tokens lo out i (bindExpr (.name name pos) s).2 P (f' (bindExpr (.name name pos) s).1)) :
    Follows tokens lo out i s P (nameExpr name pos >>= f') := by
  have hname : bindExpr (.name name pos) s = (.name (s.reference name) pos, s) := by
    rw [bindExpr]
    rfl
  rw [hname] at h
  exact h.step rfl rfl le_rfl (.refl _)

/-- What is to be done in any case is done behind the run, and passes on its outcome. -/
lemma tryFinally_apply {ε τ : Type} (body : ExceptT ε (StateM τ) α) (after : ExceptT ε (StateM τ) Unit) (s : τ) :
    tryFinally body after s = andThen (after (body s).2) fun _ s' => ((body s).1, s') := by
  simp only [tryFinally, tryFinally', bind, pure, Functor.map, ExceptT.map, ExceptT.mk, StateT.bind]
  rcases (body s : Except ε α × τ) with ⟨e | a, s'⟩ <;>
    rcases hafter : (after s' : Except ε Unit × τ) with ⟨e' | a', s''⟩ <;>
      simp only [hafter, andThen] <;> rfl

/-- A scope is closed whatever the parser in it does. -/
lemma within_run (opening closing : Binding Unit) (Q : Pass α) (tokens : List Token) (i : ℕ) (s : Scopes) :
    within opening closing Q tokens ⟨i, s⟩ =
      ((Q tokens ⟨i, (opening s).2⟩).1,
        ⟨(Q tokens ⟨i, (opening s).2⟩).2.index, (closing (Q tokens ⟨i, (opening s).2⟩).2.scopes).2⟩) :=
  tryFinally_apply (Q tokens) (onScopes closing tokens) ⟨i, (opening s).2⟩

/-- **A scope of its own.** -/
theorem Follows.within {opening closing : Binding Unit}
    (hclosing : ∀ s', (opening s).2.SameHeight s' → s.SameHeight (closing s').2)
    (h : Follows tokens lo out i (opening s).2 P Q) :
    Follows tokens lo (fun b => ((out b).1, (closing (out b).2).2)) i s P (within opening closing Q) := by
  have hrun := within_run opening closing Q tokens i s
  cases h with
  | accepts hP hQ hj hlo hlt hheight =>
    rw [hQ] at hrun
    exact .accepts hP hrun hj hlo hlt (hclosing _ hheight)
  | refuses hP hQ hvalue hdeep hj hlt hheight =>
    rw [hQ] at hrun
    exact .refuses hP hrun hvalue hdeep hj hlt (hclosing _ hheight)

/-! ## Single tokens -/

lemma tokenAt_run {offset : ℕ} (h : i + offset < tokens.length) (s : Scopes) :
    tokenAt offset tokens ⟨i, s⟩ = (.ok tokens[i + offset], ⟨i, s⟩) := by
  have hread : (read : Pass (List Token)) tokens ⟨i, s⟩ = (.ok tokens, ⟨i, s⟩) := rfl
  have hget : (get : Pass Cursor) tokens ⟨i, s⟩ = (.ok ⟨i, s⟩, ⟨i, s⟩) := rfl
  rw [tokenAt, bind_run, hread, andThen_ok, bind_run, hget, andThen_ok, List.getElem?_eq_getElem h]
  rfl

section Tokens

variable (hi : i < tokens.length)
include hi

lemma peek_run (s : Scopes) : peek tokens ⟨i, s⟩ = (.ok tokens[i], ⟨i, s⟩) := tokenAt_run hi s

lemma advance_run (hk : tokens[i].kind ≠ .eof) (s : Scopes) :
    advance tokens ⟨i, s⟩ = (.ok tokens[i], ⟨i + 1, s⟩) := by
  rw [advance, bind_run, peek_run hi, andThen_ok, if_neg hk]
  rfl

section

variable {k : Token.Kind}

lemma eat_run (hk : k ≠ .eof) (h : tokens[i].kind = k) (s : Scopes) :
    eat k tokens ⟨i, s⟩ = (.ok true, ⟨i + 1, s⟩) := by
  rw [eat, kind, bind_assoc, bind_run, peek_run hi, andThen_ok, pure_bind, if_pos h, bind_run,
    advance_run hi (h ▸ hk)]
  rfl

lemma eat_run_ne (h : tokens[i].kind ≠ k) (s : Scopes) : eat k tokens ⟨i, s⟩ = (.ok false, ⟨i, s⟩) := by
  rw [eat, kind, bind_assoc, bind_run, peek_run hi, andThen_ok, pure_bind, if_neg h]
  rfl

lemma expect_run (hk : k ≠ .eof) (h : tokens[i].kind = k) (s : Scopes) :
    expect k tokens ⟨i, s⟩ = (.ok tokens[i], ⟨i + 1, s⟩) := by
  rw [expect, bind_run, peek_run hi, andThen_ok, if_pos h, advance_run hi (h ▸ hk)]

lemma expect_run_ne (h : tokens[i].kind ≠ k) (s : Scopes) :
    expect k tokens ⟨i, s⟩ = (.error (.refused ⟨tokens[i].pos, .expected k tokens[i]⟩), ⟨i, s⟩) := by
  rw [expect, bind_run, peek_run hi, andThen_ok, if_neg h]
  rfl

end

lemma follows_peek_bind {f : Token → Parser β} {f' : Token → Pass α}
    (h : Follows tokens lo out i s (f tokens[i]) (f' tokens[i])) :
    Follows tokens lo out i s (Parser.peek >>= f) (peek >>= f') := by
  refine h.step ?_ ?_ le_rfl (.refl _)
  · rw [← front_drop hi]
    rfl
  · rw [bind_run, peek_run hi, andThen_ok]

lemma follows_kind_bind {f : Token.Kind → Parser β} {f' : Token.Kind → Pass α}
    (h : Follows tokens lo out i s (f tokens[i].kind) (f' tokens[i].kind)) :
    Follows tokens lo out i s (Parser.kind >>= f) (kind >>= f') := by
  rw [Parser.kind, kind, bind_assoc, bind_assoc]
  refine follows_peek_bind hi ?_
  rwa [pure_bind, pure_bind]

lemma follows_here_bind {f : Position → Parser β} {f' : Position → Pass α}
    (h : Follows tokens lo out i s (f tokens[i].pos) (f' tokens[i].pos)) :
    Follows tokens lo out i s (Parser.here >>= f) (here >>= f') := by
  rw [Parser.here, here, bind_assoc, bind_assoc]
  refine follows_peek_bind hi ?_
  rwa [pure_bind, pure_bind]

omit hi in
/-- The token behind the one both stand at. -/
lemma follows_nextIs_bind (hlt : i + 1 < tokens.length) {k : Token.Kind} {f : Bool → Parser β}
    {f' : Bool → Pass α}
    (h : Follows tokens lo out i s (f (tokens[i + 1].kind = k)) (f' (tokens[i + 1].kind = k))) :
    Follows tokens lo out i s (Parser.nextIs k >>= f) (nextIs k >>= f') := by
  refine h.step ?_ ?_ le_rfl (.refl _)
  · change f ((tokens.drop i).tail.head?.any (·.kind = k)) _ = _
    rw [tail_drop, List.head?_drop, List.getElem?_eq_getElem hlt]
    rfl
  · rw [nextIs, bind_assoc, bind_run, tokenAt_run hlt, andThen_ok, pure_bind]

variable (ht : Complete tokens)
include ht

/-- A token that is taken is not the end of the input. -/
lemma follows_advance_bind {f : Token → Parser β} {f' : Token → Pass α} (hk : tokens[i].kind ≠ .eof)
    (h : i + 1 < tokens.length → Follows tokens lo out (i + 1) s (f tokens[i]) (f' tokens[i])) :
    Follows tokens lo out i s (Parser.advance >>= f) (advance >>= f') := by
  refine (h (ht.succ_lt hi hk)).step ?_ ?_ (Nat.le_succ i) (.refl _)
  · rw [← tail_drop, ← front_drop hi]
    rfl
  · rw [bind_run, advance_run hi hk, andThen_ok]

section

variable {k : Token.Kind} (hk : k ≠ .eof)
include hk

/-- A token that is expected is of its kind, or refused. -/
lemma follows_expect_bind {f : Token → Parser β} {f' : Token → Pass α}
    (h : tokens[i].kind = k → i + 1 < tokens.length →
      Follows tokens lo out (i + 1) s (f tokens[i]) (f' tokens[i])) :
    Follows tokens lo out i s (Parser.expect k >>= f) (expect k >>= f') := by
  by_cases hkind : tokens[i].kind = k
  · refine (h hkind (ht.succ_lt hi (hkind ▸ hk))).step ?_ ?_ (Nat.le_succ i) (.refl _)
    · rw [Parser.bind_ok (Parser.expect_run ((congrArg _ (front_drop hi)).trans hkind)), tail_drop,
        front_drop hi]
    · rw [bind_run, expect_run hi hk hkind, andThen_ok]
  · have hkind' : (Parser.front (tokens.drop i)).kind ≠ k := by rwa [front_drop hi]
    have hP : (Parser.expect k >>= f) (tokens.drop i) =
        .error ⟨tokens[i].pos, .expected k tokens[i]⟩ := by
      rw [Parser.bind_run, Parser.expect_run_ne hkind', front_drop hi]
      rfl
    have hQ : (expect k >>= f') tokens ⟨i, s⟩ =
        (.error (.refused ⟨tokens[i].pos, .expected k tokens[i]⟩), ⟨i, s⟩) := by
      rw [bind_run, expect_run_ne hi hkind, andThen_error]
    exact .refuses hP hQ (by simp) (by simp) le_rfl hi (.refl _)

/-- A token is taken if it is of the given kind. -/
lemma follows_eat_bind {f : Bool → Parser β} {f' : Bool → Pass α}
    (htrue : tokens[i].kind = k → i + 1 < tokens.length →
      Follows tokens lo out (i + 1) s (f true) (f' true))
    (hfalse : tokens[i].kind ≠ k → Follows tokens lo out i s (f false) (f' false)) :
    Follows tokens lo out i s (Parser.eat k >>= f) (eat k >>= f') := by
  by_cases hkind : tokens[i].kind = k
  · refine (htrue hkind (ht.succ_lt hi (hkind ▸ hk))).step ?_ ?_ (Nat.le_succ i) (.refl _)
    · rw [Parser.bind_ok (Parser.eat_run ((congrArg _ (front_drop hi)).trans hkind)), tail_drop]
    · rw [bind_run, eat_run hi hk hkind, andThen_ok]
  · have hkind' : (Parser.front (tokens.drop i)).kind ≠ k := by rwa [front_drop hi]
    refine (hfalse hkind).step ?_ ?_ le_rfl (.refl _)
    · rw [Parser.bind_ok (Parser.eat_run_ne hkind')]
    · rw [bind_run, eat_run_ne hi hkind, andThen_ok]

/-- What stands behind a token of the given kind, or else what takes its place, and then what follows. -/
lemma follows_optional_bind {lo' : ℕ} {out' : δ → γ × Scopes} {f : β → Parser δ} {f' : α → Pass γ}
    (htrue : i + 1 < tokens.length → Follows tokens lo out (i + 1) s P Q)
    (hfalse : Follows tokens lo out i s P' Q')
    (hf : ∀ b j, i ≤ j → lo ≤ j → j < tokens.length →
      Follows tokens lo' out' j (out b).2 (f b) (f' (out b).1)) :
    Follows tokens lo' out' i s (Parser.eat k >>= fun found => if found then P >>= f else P' >>= f)
      (eat k >>= fun found => if found then Q >>= f' else Q' >>= f') :=
  follows_eat_bind hi ht hk
    (fun _ hlt => (htrue hlt).bind fun b j hj => hf b j (Nat.le_of_succ_le hj))
    fun _ => hfalse.bind hf

end

lemma follows_ident_bind {f : String → Parser β} {f' : String → Pass α}
    (h : tokens[i].kind = .ident → i + 1 < tokens.length →
      Follows tokens lo out (i + 1) s (f tokens[i].lexeme) (f' tokens[i].lexeme)) :
    Follows tokens lo out i s (Parser.ident >>= f) (ident >>= f') := by
  rw [Parser.ident, ident, bind_assoc, bind_assoc]
  refine follows_expect_bind hi ht (by decide) fun hk hlt => ?_
  rw [pure_bind, pure_bind]
  exact h hk hlt

lemma follows_binder_bind {f : Binder → Parser β} {f' : Binder → Pass α}
    (h : tokens[i].kind = .ident → i + 1 < tokens.length →
      Follows tokens lo out (i + 1) s (f ⟨tokens[i].lexeme, tokens[i].pos⟩)
        (f' ⟨tokens[i].lexeme, tokens[i].pos⟩)) :
    Follows tokens lo out i s (Parser.binder >>= f) (binder >>= f') := by
  rw [Parser.binder, binder, bind_assoc, bind_assoc]
  refine follows_expect_bind hi ht (by decide) fun hk hlt => ?_
  rw [pure_bind, pure_bind]
  exact h hk hlt

end Tokens

end SinglePass

end ScriptCore
