import Mathlib
import ScriptCore.Source.Parser

set_option relaxedAutoImplicit false
set_option autoImplicit false

/-!
# Runs of parsers

What a parser ensures of a list of tokens: if it accepts some of them, a condition holds of its result
and of the tokens it leaves, which are the last ones of the list. For a parser that is written as a
sequence of others, it is enough to follow the sequence, and each token that is taken leaves the tail of
the list. The same holds of the converse, that a parser accepts given tokens and with which result.

## Main definitions

* `ScriptCore.Parser.front` — the token a parser stands at.
* `ScriptCore.Parser.Ensures` — what a parser ensures of a list of tokens.
* `ScriptCore.Parser.Gives` — what a parser gives for tokens it accepts.

## Main results

* `ScriptCore.Parser.Ensures.bind` — one parser behind another one.
* `ScriptCore.Parser.ensures_expect_bind`, `ScriptCore.Parser.ensures_eat_bind` and others — a token
  that is taken, and what follows.
-/

namespace ScriptCore.Parser

variable {α γ : Type}

/-- The token a parser stands at; behind the last one, an end of the input. -/
def front (ts : List Token) : Token := ts.headD ⟨.eof, .start, ""⟩

/-- **What a parser ensures of a list of tokens**: where it accepts some of them, it leaves the last
ones, and `Φ` holds of its result and of these. -/
def Ensures (P : Parser α) (Φ : α → List Token → Prop) (ts : List Token) : Prop :=
  ∀ a rest, P ts = .ok (a, rest) → rest <:+ ts ∧ Φ a rest

variable {P : Parser α} {Φ Ψ : α → List Token → Prop} {ts : List Token}

lemma Ensures.mono (h : P.Ensures Φ ts) (himp : ∀ a rest, rest <:+ ts → Φ a rest → Ψ a rest) :
    P.Ensures Ψ ts := by
  intro a rest hrun
  obtain ⟨hsuffix, ha⟩ := h a rest hrun
  exact ⟨hsuffix, himp a rest hsuffix ha⟩

lemma Ensures.pure {a : α} (h : Φ a ts) : (Pure.pure a : Parser α).Ensures Φ ts := by
  intro a' rest hrun
  cases hrun
  exact ⟨List.suffix_refl _, h⟩

lemma ensures_failAt (pos : Position) (cause : ParseError.Cause) :
    (failAt pos cause : Parser α).Ensures Φ ts := fun _ _ hrun => nomatch hrun

lemma Ensures.ite {c : Prop} [Decidable c] {Q : Parser α} (hP : c → P.Ensures Φ ts)
    (hQ : ¬ c → Q.Ensures Φ ts) : (if c then P else Q).Ensures Φ ts := by
  split
  · next hc => exact hP hc
  · next hc => exact hQ hc

/-! ## Single tokens -/

section Runs

variable {k : Token.Kind}

lemma bind_run (P : Parser α) (f : α → Parser γ) (ts : List Token) :
    (P >>= f) ts = (P ts).bind fun x => f x.1 x.2 := rfl

lemma bind_ok {f : α → Parser γ} {a : α} {mid : List Token} (h : P ts = .ok (a, mid)) :
    (P >>= f) ts = f a mid := by
  rw [bind_run, h]
  rfl

lemma expect_run (h : (front ts).kind = k) : expect k ts = .ok (front ts, ts.tail) := by
  change (if (front ts).kind = k then advance else failAt _ _ : Parser Token) ts = _
  rw [if_pos h]
  rfl

lemma expect_run_ne (h : (front ts).kind ≠ k) :
    expect k ts = .error ⟨(front ts).pos, .expected k (front ts)⟩ := by
  change (if (front ts).kind = k then advance else failAt _ _ : Parser Token) ts = _
  rw [if_neg h]
  rfl

lemma eat_run (h : (front ts).kind = k) : eat k ts = .ok (true, ts.tail) := by
  change (if (front ts).kind = k then (advance >>= fun _ => pure true) else pure false :
    Parser Bool) ts = _
  rw [if_pos h]
  rfl

lemma eat_run_ne (h : (front ts).kind ≠ k) : eat k ts = .ok (false, ts) := by
  change (if (front ts).kind = k then (advance >>= fun _ => pure true) else pure false :
    Parser Bool) ts = _
  rw [if_neg h]
  rfl

lemma ident_run (h : (front ts).kind = .ident) : ident ts = .ok ((front ts).lexeme, ts.tail) := by
  rw [ident, bind_ok (expect_run h)]
  rfl

lemma binder_run (h : (front ts).kind = .ident) :
    binder ts = .ok (⟨(front ts).lexeme, (front ts).pos⟩, ts.tail) := by
  rw [binder, bind_ok (expect_run h)]
  rfl

end Runs

/-! ## Sequences -/

section Bind

variable {f : α → Parser γ} {Θ : γ → List Token → Prop}

/-- **One parser behind another one** goes on with the tokens that one leaves. -/
theorem Ensures.bind (hP : P.Ensures Φ ts)
    (hf : ∀ a rest, rest <:+ ts → Φ a rest → (f a).Ensures Θ rest) : (P >>= f).Ensures Θ ts := by
  intro c rest hrun
  rw [bind_run] at hrun
  cases hfirst : P ts with
  | error e =>
    rw [hfirst] at hrun
    cases hrun
  | ok x =>
    rw [hfirst] at hrun
    obtain ⟨hsuffix, ha⟩ := hP x.1 x.2 hfirst
    obtain ⟨hsuffix', hc⟩ := hf x.1 x.2 hsuffix ha c rest hrun
    exact ⟨hsuffix'.trans hsuffix, hc⟩

end Bind

section Tokens

variable {Θ : γ → List Token → Prop}

lemma ensures_peek_bind {f : Token → Parser γ} (h : (f (front ts)).Ensures Θ ts) :
    (peek >>= f).Ensures Θ ts := h

lemma ensures_kind_bind {f : Token.Kind → Parser γ} (h : (f (front ts).kind).Ensures Θ ts) :
    (kind >>= f).Ensures Θ ts := h

lemma ensures_here_bind {f : Position → Parser γ} (h : (f (front ts).pos).Ensures Θ ts) :
    (here >>= f).Ensures Θ ts := h

lemma ensures_nextIs_bind {k : Token.Kind} {f : Bool → Parser γ}
    (h : (f (ts.tail.head?.any (·.kind = k))).Ensures Θ ts) : (nextIs k >>= f).Ensures Θ ts := h

/-- What a parser ensures of the tail of a list, it does so behind a token that is taken. -/
lemma Ensures.of_tail {P : Parser γ} (h : P.Ensures Θ ts.tail) {a : γ} {rest : List Token}
    (hrun : P ts.tail = .ok (a, rest)) : rest <:+ ts ∧ Θ a rest := by
  obtain ⟨hsuffix, ha⟩ := h a rest hrun
  exact ⟨hsuffix.trans (List.tail_suffix ts), ha⟩

lemma ensures_advance_bind {f : Token → Parser γ} (h : (f (front ts)).Ensures Θ ts.tail) :
    (advance >>= f).Ensures Θ ts := fun _ _ hrun => h.of_tail hrun

/-- A token that is expected is of its kind. -/
lemma ensures_expect_bind {k : Token.Kind} {f : Token → Parser γ}
    (h : (front ts).kind = k → (f (front ts)).Ensures Θ ts.tail) :
    (expect k >>= f).Ensures Θ ts := by
  intro c rest hrun
  by_cases hk : (front ts).kind = k
  · rw [bind_ok (expect_run hk)] at hrun
    exact (h hk).of_tail hrun
  · rw [bind_run, expect_run_ne hk] at hrun
    cases hrun

/-- A token is taken if it is of the given kind. -/
lemma ensures_eat_bind {k : Token.Kind} {f : Bool → Parser γ}
    (htrue : (front ts).kind = k → (f true).Ensures Θ ts.tail)
    (hfalse : (front ts).kind ≠ k → (f false).Ensures Θ ts) : (eat k >>= f).Ensures Θ ts := by
  intro c rest hrun
  by_cases hk : (front ts).kind = k
  · rw [bind_ok (eat_run hk)] at hrun
    exact (htrue hk).of_tail hrun
  · rw [bind_ok (eat_run_ne hk)] at hrun
    exact hfalse hk c rest hrun

lemma ensures_ident_bind {f : String → Parser γ}
    (h : (front ts).kind = .ident → (f (front ts).lexeme).Ensures Θ ts.tail) :
    (ident >>= f).Ensures Θ ts := by
  have hident : (ident >>= f) = (expect .ident >>= fun t => f t.lexeme) := by
    rw [ident, bind_assoc]
    simp only [pure_bind]
  rw [hident]
  exact ensures_expect_bind h

lemma ensures_binder_bind {f : Binder → Parser γ}
    (h : (front ts).kind = .ident → (f ⟨(front ts).lexeme, (front ts).pos⟩).Ensures Θ ts.tail) :
    (binder >>= f).Ensures Θ ts := by
  have hbinder : (binder >>= f) = (expect .ident >>= fun t => f ⟨t.lexeme, t.pos⟩) := by
    rw [binder, bind_assoc]
    simp only [pure_bind]
  rw [hbinder]
  exact ensures_expect_bind h

end Tokens

/-! ## Accepted tokens -/

/-- **What a parser gives for the tokens between two places**: it accepts them, leaves the others, and `Φ`
holds of its result. -/
def Gives (P : Parser α) (Φ : α → Prop) (ts rest : List Token) : Prop :=
  ∃ a, P ts = .ok (a, rest) ∧ Φ a

section Gives

variable {Φ : α → Prop} {Ψ : γ → Prop} {mid rest : List Token}

lemma Gives.pure {a : α} (h : Φ a) : (Pure.pure a : Parser α).Gives Φ ts ts := ⟨a, rfl, h⟩

/-- One parser behind another one that is known to accept. -/
lemma Gives.of_run {f : α → Parser γ} {a : α} (hP : P ts = .ok (a, mid))
    (hf : (f a).Gives Ψ mid rest) : (P >>= f).Gives Ψ ts rest := by
  obtain ⟨c, hc, hΨ⟩ := hf
  exact ⟨c, (bind_ok hP).trans hc, hΨ⟩

/-- One parser behind another one. -/
lemma Gives.bind {f : α → Parser γ} (hP : P.Gives Φ ts mid)
    (hf : ∀ a, Φ a → (f a).Gives Ψ mid rest) : (P >>= f).Gives Ψ ts rest := by
  obtain ⟨a, ha, hΦ⟩ := hP
  exact .of_run ha (hf a hΦ)

lemma gives_peek_bind {f : Token → Parser γ} (h : (f (front ts)).Gives Ψ ts rest) :
    (peek >>= f).Gives Ψ ts rest := h

lemma gives_advance_bind {f : Token → Parser γ} (h : (f (front ts)).Gives Ψ ts.tail rest) :
    (advance >>= f).Gives Ψ ts rest := h

lemma gives_kind_bind {f : Token.Kind → Parser γ} (h : (f (front ts).kind).Gives Ψ ts rest) :
    (kind >>= f).Gives Ψ ts rest := h

end Gives

end ScriptCore.Parser
