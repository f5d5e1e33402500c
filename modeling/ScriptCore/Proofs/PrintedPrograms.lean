import ScriptCore.Proofs.PrintedTrees

set_option relaxedAutoImplicit false
set_option autoImplicit false

/-!
# Parsing inverts printing

Tables, functions and statements are read back from their words if their parts are. With the expressions,
every grammatical tree is read back, and so is the program of every list of tokens that the parser
accepts: its canonical text has the same program, up to the places of its parts.

## Main results

* `ScriptCore.Node.Grammatical.readBack` — every grammatical tree is read back from its words.
* `ScriptCore.exists_spells_words` — the words of a grammatical tree can be spelled.
* `ScriptCore.parseChunk_words` — parsing inverts printing.
-/

namespace ScriptCore

open ScriptCore.Parser Grammar

variable {n : Nat} {ts rest : List Token}

/-! ## Tables -/

lemma gives_nextIs_bind {γ : Type} {k : Token.Kind} {f : Bool → Parser γ} {Ψ : γ → Prop}
    (h : (f (ts.tail.head?.any (·.kind = k))).Gives Ψ ts rest) :
    (nextIs k >>= f).Gives Ψ ts rest := h

/-- The token behind the first one. -/
lemma any_head?_eq {k : Token.Kind} (hk : k ≠ .eof) :
    ts.head?.any (·.kind = k) = decide ((front ts).kind = k) := by
  cases ts with
  | nil => exact (decide_eq_false (Ne.symm hk)).symm
  | cons t ts => rfl

lemma endsExpr_of_comma_or_rBrace {k : Token.Kind} (h : k = .comma ∨ k = .rBrace) : k.endsExpr := by
  rcases h with rfl | rfl <;> rfl

lemma Item.ReadBack.positional {value : RawExpr} (hgrammatical : value.Grammatical)
    (h : value.ReadBack) : (Item.positional value : Item String Binder).ReadBack := by
  intro n ts rest hts hrest hn
  have hfront := Expr.startsExpr_of_spelled hgrammatical hts
  have hopen : (front ts).kind ≠ .lBracket := by
    intro hk
    rw [hk] at hfront
    cases hfront
  refine gives_peek_bind ?_
  rw [if_neg hopen]
  refine gives_nextIs_bind ?_
  rw [any_head?_eq (by decide), if_neg]
  · exact (h.gives hts (endsExpr_of_comma_or_rBrace hrest) hn).bind fun value' hvalue =>
      .pure (congrArg Item.positional hvalue)
  · rintro ⟨hname, hassign⟩
    refine Expr.not_assign_of_spelled hgrammatical hts hname ?_ (of_decide_eq_true hassign)
    rcases hrest with hk | hk <;> rw [hk] <;> decide

lemma Item.ReadBack.named {name : String} {value : RawExpr} (h : value.ReadBack) :
    (Item.named name value : Item String Binder).ReadBack := by
  intro n ts rest hts hrest hn
  obtain ⟨t, _, rfl, ⟨ht, rfl⟩, t', mid, rfl, ht' : t'.kind = _, hmid⟩ := hts
  have hrest' : rest ≠ [] := (Expr.EndsAt.of_front (e := value) (endsExpr_of_comma_or_rBrace hrest)).ne_nil
  have hk := (hn.behind (List.cons_ne_nil _ _)).suffix (List.suffix_cons t' mid) (hmid.ne_nil hrest')
  refine gives_peek_bind ?_
  rw [show (front (t :: t' :: mid)).kind = _ from ht, if_neg (by decide)]
  refine gives_nextIs_bind ?_
  rw [any_head?_eq (by decide), if_pos ⟨rfl, decide_eq_true ht'⟩]
  refine gives_advance_bind (gives_advance_bind ?_)
  exact (h.gives hmid (endsExpr_of_comma_or_rBrace hrest) hk).bind fun value' hvalue =>
    .pure (congrArg (Item.named t.lexeme) hvalue)

lemma Item.ReadBack.keyed {key value : RawExpr} (hkey : key.ReadBack) (h : value.ReadBack) :
    (Item.keyed key value : Item String Binder).ReadBack := by
  intro n ts rest hts hrest hn
  obtain ⟨t, mid, rfl, ht : t.kind = _, hmid⟩ := hts
  have hrest' : rest ≠ [] := (Expr.EndsAt.of_front (e := value) (endsExpr_of_comma_or_rBrace hrest)).ne_nil
  have hk := hn.behind (hmid.ne_nil hrest')
  obtain ⟨t', _, ht', ⟨t'', mid'', rfl, ht'' : t''.kind = _, hmid''⟩, hsuffix, hrun⟩ :=
    hkey.gives_before rfl hmid hk
  have hk' := hk.suffix ((List.suffix_cons t'' mid'').trans hsuffix) (hmid''.ne_nil hrest')
  refine gives_peek_bind ?_
  rw [show (front (t :: mid)).kind = _ from ht, if_pos rfl]
  refine gives_advance_bind (hrun.bind fun key' hkey' => ?_)
  refine .of_run (expect_run ht') (.of_run (expect_run ht'') ?_)
  exact (h.gives hmid'' (endsExpr_of_comma_or_rBrace hrest) hk').bind fun value' hvalue =>
    .pure (congrArg₂ Item.keyed hkey' hvalue)

/-- No item starts with the brace that closes its table. -/
lemma Item.front_ne_rBrace {i : Item String Binder} (hi : i.Grammatical)
    (hts : Spelled i.words ts rest) : (front ts).kind ≠ .rBrace := by
  cases i with
  | positional value =>
    intro hk
    have hfront := Expr.startsExpr_of_spelled (hi.child (.head _)) hts
    rw [hk] at hfront
    cases hfront
  | named name value =>
    obtain ⟨t, _, rfl, ⟨ht, -⟩, -⟩ := hts
    rw [front, List.headD_cons, ht]
    decide
  | keyed key value =>
    obtain ⟨t, _, rfl, ht : t.kind = _, -⟩ := hts
    rw [front, List.headD_cons, ht]
    decide

/-- The items of a table are read back. -/
lemma gives_items {is : List (Item String Binder)} (his : ∀ i ∈ is, i.ReadBack)
    (hgrammatical : ∀ i ∈ is, i.Grammatical) (hts : Spelled (itemsWords is) ts rest)
    (hrest : (front rest).kind = .rBrace) (hn : Below n ts) :
    (level n).items.Gives (fun is' =>
      unplacedItems Binder.unplaced is' = unplacedItems Binder.unplaced is) ts rest := by
  have hrest' : rest ≠ [] := ne_nil_of_front (by rw [hrest]; decide)
  induction is generalizing n ts with
  | nil =>
    obtain rfl : ts = rest := hts
    obtain ⟨k, rfl⟩ := hn.exists_succ
    refine gives_kind_bind ?_
    rw [if_pos hrest]
    exact .pure rfl
  | cons i is ih =>
    obtain ⟨mid, hi, hmid⟩ := Spelled.append_iff.1 hts
    obtain ⟨k, rfl⟩ := hn.exists_succ
    refine gives_kind_bind ?_
    rw [if_neg (Item.front_ne_rBrace (hgrammatical i List.mem_cons_self) hi)]
    cases is with
    | nil =>
      obtain rfl : mid = rest := hmid
      refine (his i List.mem_cons_self k ts mid hi (.inr hrest) hn).bind fun i' hi' => ?_
      refine .of_run (eat_run_ne (by rw [hrest]; decide)) ?_
      refine .of_run (eat_run_ne (by rw [hrest]; decide)) (.pure ?_)
      exact congrArg (fun x => [x]) hi'
    | cons i₂ is =>
      obtain ⟨t, mid', rfl, ht : t.kind = _, hmid'⟩ := hmid
      refine (his i List.mem_cons_self k ts _ hi (.inl ht) hn).bind fun i' hi' => ?_
      refine .of_run (eat_run ht) ?_
      have hk := (hn.suffix hi.suffix (List.cons_ne_nil _ _)).behind (hmid'.ne_nil hrest')
      refine (ih (fun i hi => his i (List.mem_cons_of_mem _ hi))
        (fun i hi => hgrammatical i (List.mem_cons_of_mem _ hi)) hmid' hk).bind fun is' his' => ?_
      exact .pure (congrArg₂ List.cons hi' his')

lemma Expr.ReadBack.table {items : List (Item String Binder)} {pos : Position}
    (he : (Expr.table items pos).Grammatical) (hitems : ∀ i ∈ items, i.ReadBack) :
    (Expr.table items pos).ReadBack := by
  refine of_simple he rfl nofun fun n ts rest hts hends hn => ?_
  obtain ⟨t, mid, rfl, ht : t.kind = _, hmid⟩ := hts
  obtain ⟨_, hitemsWords, t', _, rfl, ht' : t'.kind = _, rfl⟩ := Spelled.append_iff.1 hmid
  refine gives_peek_bind ?_
  rw [show (front (t :: mid)).kind = _ from ht]
  refine .of_run (expect_run ht) ?_
  refine (gives_items hitems (fun i hi => he.child (List.mem_map_of_mem hi)) hitemsWords ht'
    (hn.behind (hmid.ne_nil hends.ne_nil))).bind fun items' hitems' => ?_
  exact .of_run (expect_run ht') (.pure (congrArg (Expr.table · .start) hitems'))

/-! ## Functions -/

/-- Parameters are read back. -/
lemma gives_params {params : List Binder} {variadic : Bool} (hne : params ≠ [] ∨ variadic)
    (hts : Spelled (paramWords params variadic) ts rest) (hrest : (front rest).kind = .rParen)
    (hn : Below n ts) : (level n).params.Gives (fun x =>
      x.1.map Binder.unplaced = params.map Binder.unplaced ∧ x.2 = variadic) ts rest := by
  have hrest' : rest ≠ [] := ne_nil_of_front (by rw [hrest]; decide)
  fun_induction paramWords params variadic generalizing n ts with
  | case1 => exact absurd hne (by decide)
  | case2 =>
    obtain ⟨t, _, rfl, ht : t.kind = _, rfl⟩ := hts
    obtain ⟨k, rfl⟩ := hn.exists_succ
    exact .of_run (eat_run ht) (.pure ⟨rfl, rfl⟩)
  | case3 b =>
    obtain ⟨t, rest, rfl, ⟨ht, hname⟩, rfl⟩ := hts
    obtain ⟨k, rfl⟩ := hn.exists_succ
    refine .of_run (eat_run_ne (by rw [front, List.headD_cons, ht]; decide)) ?_
    refine .of_run (binder_run ht) (.of_run (eat_run_ne ?_) (.pure ⟨?_, rfl⟩))
    · change (front rest).kind ≠ _
      rw [hrest]
      decide
    · exact congrArg (fun name => [Binder.mk name .start]) hname
  | case4 b bs variadic hmore ih =>
    obtain ⟨t, _, rfl, ⟨ht, hname⟩, t', mid, rfl, ht' : t'.kind = _, hmid⟩ := hts
    obtain ⟨k, rfl⟩ := hn.exists_succ
    refine .of_run (eat_run_ne (by rw [front, List.headD_cons, ht]; decide)) ?_
    refine .of_run (binder_run ht) (.of_run (eat_run ht') ?_)
    have hk := (hn.behind (List.cons_ne_nil _ _)).suffix (List.suffix_cons t' mid) (hmid.ne_nil hrest')
    have hne' : bs ≠ [] ∨ variadic = true := by
      by_contra hnot
      rw [not_or, not_not, Bool.not_eq_true] at hnot
      exact hmore hnot.2 hnot.1
    refine (ih hne' hmid hk).bind fun x hx => .pure ⟨?_, hx.2⟩
    rw [List.map_cons, List.map_cons, hx.1]
    exact congrArg (fun name => Binder.mk name .start :: bs.map Binder.unplaced) hname

/-- A block before a token that ends it, and what stands behind. -/
lemma Block.ReadBack.gives_before {b : RawBlock} (h : b.ReadBack) {k : Token.Kind} {ws : List Word}
    (hk : endsBlock k) (hts : Spelled (b.words ++ .fixed k :: ws) ts rest) (hn : Below n ts) :
    ∃ t mid, t.kind = k ∧ Spelled ws mid rest ∧ mid <:+ ts ∧
      (block (level n)).Gives (·.Alike b) ts (t :: mid) := by
  obtain ⟨mid', hb, t, mid, rfl, ht : t.kind = k, hmid⟩ := Spelled.append_iff.1 hts
  refine ⟨t, mid, ht, hmid, (List.suffix_cons t mid).trans hb.suffix,
    h n ts (t :: mid) hb ?_ (List.cons_ne_nil _ _) hn⟩
  rw [front, List.headD_cons, ht]
  exact hk

/-- **A function literal is read back** if its body is. -/
lemma Function.ReadBack.of_body {params : List Binder} {variadic : Bool} {body : RawBlock}
    {fpos : Position} (h : body.ReadBack) : (Function.mk params variadic body fpos).ReadBack := by
  intro n pos ts rest hts hrest hn
  obtain ⟨t, mid, rfl, ht : t.kind = _, hmid⟩ := hts
  obtain ⟨_, hparams, t', mid', rfl, ht' : t'.kind = _, hmid'⟩ := Spelled.append_iff.1 hmid
  have hk := (hn.behind (hmid.ne_nil hrest)).suffix
    ((List.suffix_cons t' mid').trans hparams.suffix) (hmid'.ne_nil hrest)
  obtain ⟨t'', rest, ht'', rfl, -, hbody⟩ := h.gives_before rfl hmid' hk
  refine .of_run (expect_run ht) (gives_kind_bind ?_)
  -- what stands behind the parameters
  have hbehind : ∀ x : List Binder × Bool, x.1.map Binder.unplaced = params.map Binder.unplaced →
      x.2 = variadic → (do
        let _ ← expect .rParen
        let body ← block (level n)
        let _ ← expect .kwEnd
        return Function.mk ([] ++ x.1) x.2 body pos : Parser RawFunction).Gives
      (·.Alike (.mk params variadic body fpos)) (t' :: mid') rest := by
    rintro x hx rfl
    refine .of_run (expect_run ht') (hbody.bind fun body' hbody' => .of_run (expect_run ht'') (.pure ?_))
    exact congrArg₂ (Function.mk · x.2 · .start) hx hbody'
  by_cases hempty : params = [] ∧ variadic = false
  · obtain ⟨rfl, rfl⟩ := hempty
    obtain rfl : mid = _ := hparams
    rw [show (front ((t :: t' :: mid').tail)).kind = _ from ht', if_pos rfl]
    exact hbehind ([], false) rfl rfl
  · have hne : params ≠ [] ∨ variadic = true := by
      by_contra hnot
      rw [not_or, not_not, Bool.not_eq_true] at hnot
      exact hempty hnot
    have hfront : (front mid).kind ≠ .rParen := by
      cases params with
      | nil =>
        obtain rfl : variadic = true := hne.resolve_left (absurd rfl)
        obtain ⟨t₁, _, rfl, ht₁ : t₁.kind = _, -⟩ := hparams
        rw [front, List.headD_cons, ht₁]
        decide
      | cons b bs =>
        have hname : ∃ ws, paramWords (b :: bs) variadic = .name b.name :: ws := by
          cases bs <;> cases variadic <;> exact ⟨_, rfl⟩
        obtain ⟨ws, hws⟩ := hname
        rw [hws] at hparams
        obtain ⟨t₁, _, rfl, ⟨ht₁, -⟩, -⟩ := hparams
        rw [front, List.headD_cons, ht₁]
        decide
    rw [if_neg (show (front (t :: mid).tail).kind ≠ _ from hfront)]
    have hk' := hn.suffix (List.suffix_cons t mid) (hmid.ne_nil hrest)
    exact (gives_params hne hparams ht' hk').bind fun x hx => hbehind x hx.1 hx.2

lemma Expr.ReadBack.function_mk {f : RawFunction} (he : (Expr.function f).Grammatical)
    (h : f.ReadBack) : (Expr.function f).ReadBack := by
  refine of_simple he rfl nofun fun n ts rest hts hends hn => ?_
  obtain ⟨t, mid, rfl, ht : t.kind = _, hmid⟩ := hts
  refine gives_peek_bind ?_
  rw [show (front (t :: mid)).kind = _ from ht]
  refine gives_advance_bind ?_
  refine (h n _ mid rest hmid hends.ne_nil (hn.suffix (List.suffix_cons t mid)
    (hmid.ne_nil hends.ne_nil))).bind fun f' hf' => ?_
  exact .pure (congrArg Expr.function hf')

/-! ## Parts of statements -/

/-- The names behind the first of a list are read back. -/
lemma gives_moreNames {bs : List Binder} (hts : Spelled (moreNamesWords bs) ts rest)
    (hrest : rest ≠ []) (hcomma : (front rest).kind ≠ .comma) (hn : Below n ts) :
    (level n).moreNames.Gives (fun bs' => bs'.map Binder.unplaced = bs.map Binder.unplaced)
      ts rest := by
  induction bs generalizing n ts with
  | nil =>
    obtain rfl : ts = rest := hts
    obtain ⟨k, rfl⟩ := hn.exists_succ
    exact .of_run (eat_run_ne hcomma) (.pure rfl)
  | cons b bs ih =>
    obtain ⟨t, _, rfl, ht : t.kind = _, t', mid, rfl, ⟨ht', hname⟩, hmid⟩ := hts
    obtain ⟨k, rfl⟩ := hn.exists_succ
    have hk := (hn.behind (List.cons_ne_nil _ _)).suffix (List.suffix_cons t' mid) (hmid.ne_nil hrest)
    refine .of_run (eat_run ht) (.of_run (binder_run ht') ((ih hmid hk).bind fun bs' hbs' => .pure ?_))
    exact congrArg₂ (fun name bs => Binder.mk name .start :: bs) hname hbs'

/-- The loop over the members of a target takes a member. -/
lemma path_dot {k : Nat} {pos : Position} {e : RawExpr} {t t' : Token} (ht : t.kind = .dot)
    (ht' : t'.kind = .ident) : (level (k + 1)).path pos e (t :: t' :: rest) =
      (level k).path pos (.member e t'.lexeme pos) rest := by
  have heat : eat .dot (t :: t' :: rest) = .ok (true, t' :: rest) := eat_run ht
  have hident : ident (t' :: rest) = .ok (t'.lexeme, rest) := ident_run ht'
  change pathRule (level k) pos e (t :: t' :: rest) = _
  rw [pathRule, bind_ok heat, if_pos rfl, bind_ok hident]

/-- The loop over the members of a target stops at the parameters. -/
lemma path_stop {m : Nat} {pos : Position} {e : RawExpr} (hrest : (front rest).kind = .lParen)
    (hm : Below m rest) : (level m).path pos e rest = .ok ((e, false), rest) := by
  obtain ⟨k, rfl⟩ := hm.exists_succ
  change pathRule (level k) pos e rest = _
  rw [pathRule, bind_ok (eat_run_ne (by rw [hrest]; decide)), if_neg (by decide),
    bind_ok (eat_run_ne (by rw [hrest]; decide)), if_neg (by decide)]
  rfl

/-- **The target of a function statement is read back**, up to the loop over further members. -/
lemma path_readBack (pos : Position) : ∀ (e : RawExpr) {n : Nat} {ts rest : List Token}, e.isPath →
    Spelled e.words ts rest → rest ≠ [] → Below n ts →
      ∃ t mid m e', ts = t :: mid ∧ t.kind = .ident ∧ e'.Alike e ∧ Below m rest ∧
        (level n).path pos (.name t.lexeme t.pos) mid = (level m).path pos e' rest
  | .name _ _, n, ts, rest, _, hts, hrest, hn => by
    obtain ⟨t, _, rfl, ⟨ht, rfl⟩, rfl⟩ := hts
    exact ⟨t, _, n, .name t.lexeme t.pos, rfl, ht, rfl, hn.suffix (List.suffix_cons t _) hrest, rfl⟩
  | .member object _ _, n, ts, rest, hpath, hts, hrest, hn => by
    obtain ⟨_, ho, t', _, rfl, ht' : t'.kind = _, t'', _, rfl, ⟨ht'', rfl⟩, rfl⟩ :=
      Spelled.append_iff.1 hts
    obtain ⟨t, mid, m, object', rfl, ht, halike, hm, hrun⟩ :=
      path_readBack pos object hpath ho (List.cons_ne_nil _ _) hn
    obtain ⟨k, rfl⟩ := hm.exists_succ
    exact ⟨t, mid, k, .member object' t''.lexeme pos, rfl, ht,
      congrArg (Expr.member · t''.lexeme .start) halike,
      (hm.behind (List.cons_ne_nil _ _)).suffix (List.suffix_cons t'' _) hrest,
      hrun.trans (path_dot ht' ht'')⟩
  | .nil _, _, _, _, hpath, _, _, _ | .varargs _, _, _, _, hpath, _, _, _
  | .bool .., _, _, _, hpath, _, _, _ | .number .., _, _, _, hpath, _, _, _
  | .string .., _, _, _, hpath, _, _, _ | .index .., _, _, _, hpath, _, _, _
  | .call .., _, _, _, hpath, _, _, _ | .function _, _, _, _, hpath, _, _, _
  | .table .., _, _, _, hpath, _, _, _ | .unary .., _, _, _, hpath, _, _, _
  | .binary .., _, _, _, hpath, _, _, _ | .group .., _, _, _, hpath, _, _, _ => nomatch hpath

/-- **The rest of a conditional is read back** if its parts are. -/
lemma gives_alternative : ∀ (a : Alternative String Binder) {n : Nat} {ts rest : List Token},
    (∀ c ∈ a.children, c.ReadBack) → Spelled a.words ts rest → (front rest).kind = .kwEnd →
      Below n ts → (level n).alternative.Gives
        (fun a' => a'.unplaced Binder.unplaced = a.unplaced Binder.unplaced) ts rest
  | .none, n, ts, rest, _, hts, hrest, hn => by
    obtain rfl : ts = rest := hts
    obtain ⟨k, rfl⟩ := hn.exists_succ
    refine .of_run (eat_run_ne (by rw [hrest]; decide)) ?_
    exact .of_run (eat_run_ne (by rw [hrest]; decide)) (.pure rfl)
  | .otherwise body, n, ts, rest, hparts, hts, hrest, hn => by
    obtain ⟨t, mid, rfl, ht : t.kind = _, hmid⟩ := hts
    obtain ⟨k, rfl⟩ := hn.exists_succ
    have hrest' : rest ≠ [] := ne_nil_of_front (by rw [hrest]; decide)
    have hbody : body.ReadBack := hparts _ (.head _)
    refine .of_run (eat_run_ne (by rw [front, List.headD_cons, ht]; decide)) (.of_run (eat_run ht) ?_)
    refine (hbody k mid rest hmid (by rw [hrest]; rfl) hrest' (hn.behind (hmid.ne_nil hrest'))).bind ?_
    exact fun body' hbody' => .pure (congrArg Alternative.otherwise hbody')
  | .elseIf condition body a, n, ts, rest, hparts, hts, hrest, hn => by
    obtain ⟨t, mid, rfl, ht : t.kind = _, hmid⟩ := hts
    obtain ⟨k, rfl⟩ := hn.exists_succ
    have hrest' : rest ≠ [] := ne_nil_of_front (by rw [hrest]; decide)
    have hcondition : condition.ReadBack := hparts _ (.head _)
    have hbody : body.ReadBack := hparts _ (.tail _ (.head _))
    have hk := hn.behind (hmid.ne_nil hrest')
    obtain ⟨t', mid', ht', hmid', hsuffix, hcrun⟩ := hcondition.gives_before rfl hmid hk
    have hk' := hk.suffix hsuffix (hmid'.ne_nil hrest')
    obtain ⟨mid'', hb, ha⟩ := Spelled.append_iff.1 hmid'
    have hfront : endsBlock (front mid'').kind := by
      cases a with
      | none =>
        obtain rfl : mid'' = rest := ha
        rw [hrest]
        rfl
      | otherwise | elseIf =>
        obtain ⟨t₁, _, rfl, ht₁ : t₁.kind = _, -⟩ := ha
        rw [front, List.headD_cons, ht₁]
        rfl
    refine .of_run (eat_run ht) (hcrun.bind fun condition' hc => .of_run (expect_run ht') ?_)
    refine (hbody k mid' mid'' hb hfront (ha.ne_nil hrest') hk').bind fun body' hb' => ?_
    refine (gives_alternative a (fun c hc => hparts c (.tail _ (.tail _ hc))) ha hrest
      (hk'.suffix hb.suffix (ha.ne_nil hrest'))).bind fun a' ha' => .pure ?_
    change Alternative.elseIf _ _ _ = Alternative.elseIf _ _ _
    rw [hc, hb', ha']

section Targets

variable {ρ β : Type} {e' e : Expr ρ β} {g : β → β}

lemma Expr.isAssignable_unplaced (e : Expr ρ β) : (e.unplaced g).isAssignable = e.isAssignable := by
  cases e <;> rfl

lemma Expr.isCall_unplaced (e : Expr ρ β) : (e.unplaced g).isCall = e.isCall := by
  cases e <;> rfl

end Targets

lemma Expr.Alike.isAssignable {e' e : RawExpr} (h : e'.Alike e) : e'.isAssignable = e.isAssignable := by
  rw [← e'.isAssignable_unplaced, h, e.isAssignable_unplaced]

lemma Expr.Alike.isCall {e' e : RawExpr} (h : e'.Alike e) : e'.isCall = e.isCall := by
  rw [← e'.isCall_unplaced, h, e.isCall_unplaced]

/-- The targets behind the first of an assignment are read back. -/
lemma gives_moreTargets {es : List RawExpr} (hes : ∀ e ∈ es, e.ReadBack)
    (hassignable : ∀ e ∈ es, e.isAssignable) (hts : Spelled (moreExprsWords es) ts rest)
    (hrest : (front rest).kind = .assign) (hn : Below n ts) :
    (level n).moreTargets.Gives (ExprsAlike · es) ts rest := by
  have hrest' : rest ≠ [] := ne_nil_of_front (by rw [hrest]; decide)
  induction es generalizing n ts with
  | nil =>
    obtain rfl : ts = rest := hts
    obtain ⟨k, rfl⟩ := hn.exists_succ
    exact .of_run (eat_run_ne (by rw [hrest]; decide)) (.pure rfl)
  | cons e es ih =>
    obtain ⟨t, mid, rfl, ht, hmid⟩ := hts
    obtain ⟨mid', he, hmid'⟩ := Spelled.append_iff.1 hmid
    obtain ⟨k, rfl⟩ := hn.exists_succ
    have hk := hn.behind (hmid.ne_nil hrest')
    have hfront : (front mid').kind.startsSuffix = false := by
      cases es with
      | nil =>
        obtain rfl : mid' = rest := hmid'
        rw [hrest]
        rfl
      | cons =>
        obtain ⟨t', _, rfl, ht' : t'.kind = _, -⟩ := hmid'
        rw [front, List.headD_cons, ht']
        rfl
    have hhead := (hes e List.mem_cons_self).suffixes
      (Expr.isHead_of_isAssignable (hassignable e List.mem_cons_self))
    refine .of_run (eat_run ht) ?_
    refine (hhead.gives he (hmid'.ne_nil hrest') hfront hk.succ).bind fun e' he' => ?_
    refine (ih (fun e he => hes e (List.mem_cons_of_mem _ he))
      (fun e he => hassignable e (List.mem_cons_of_mem _ he)) hmid'
      (hk.suffix he.suffix (hmid'.ne_nil hrest'))).bind fun es' hes' => .pure ?_
    exact congrArg₂ List.cons he' hes'

lemma checkAssignable_run {e : RawExpr} (h : e.isAssignable) :
    checkAssignable e ts = .ok ((), ts) := by
  rw [checkAssignable, if_pos h]
  rfl

lemma checkAssignables_run : ∀ {es' es : List RawExpr}, ExprsAlike es' es →
    (∀ e ∈ es, e.isAssignable) → es'.forM checkAssignable ts = .ok ((), ts)
  | [], _, _, _ => rfl
  | e' :: es', [], h, _ => by cases h
  | e' :: es', e :: es, h, hassignable => by
    obtain ⟨he, hes⟩ := List.cons.inj h
    have he' : e'.isAssignable := by
      rw [Expr.Alike.isAssignable he]
      exact hassignable e List.mem_cons_self
    refine (bind_ok (checkAssignable_run he')).trans ?_
    exact checkAssignables_run hes fun e he => hassignable e (List.mem_cons_of_mem _ he)

/-! ## Statements -/

namespace Stmt.ReadBack

variable {pos : Position}

/-- A statement that begins with an expression is read by the rule for assignments and calls. -/
lemma of_exprStmt {s : RawStmt} {e : RawExpr} {mid : List Token} (he : e.Grammatical) (hhead : e.isHead)
    (hts : Spelled e.words ts mid)
    (h : (exprStmt (level n) (front ts).pos).Gives (·.Alike s) ts rest) :
    (stmt (level n)).Gives (·.Alike s) ts rest := by
  refine gives_peek_bind ?_
  rcases Expr.front_of_isHead he hhead hts with hk | hk <;>
  · rw [hk]
    exact h

lemma localVars {vars : List Binder} {values : List RawExpr}
    (hs : (Stmt.localVars vars values pos).Grammatical) (hvalues : ∀ e ∈ values, e.ReadBack) :
    (Stmt.localVars vars values pos).ReadBack := by
  intro n ts rest hts hrest hn
  have hrest' : rest ≠ [] := ne_nil_of_front (by rw [hrest]; decide)
  cases vars with
  | nil => exact absurd rfl hs.regular
  | cons b bs =>
    -- the names, and what stands behind them
    have hnames : ∃ t t' mid mid', ts = t :: t' :: mid ∧ t.kind = .kwLocal ∧ t'.kind = .ident ∧
        t'.lexeme = b.name ∧ Spelled (moreNamesWords bs) mid mid' ∧ mid' ≠ [] ∧
        ((values = [] ∧ mid' = rest) ∨ (values ≠ [] ∧
          Spelled (.fixed .assign :: exprsWords values) mid' rest)) := by
      cases values with
      | nil =>
        obtain ⟨t, _, rfl, ht, t', mid, rfl, ⟨ht', hname⟩, hmid⟩ := hts
        exact ⟨t, t', mid, rest, rfl, ht, ht', hname, hmid, hrest', .inl ⟨rfl, rfl⟩⟩
      | cons e es =>
        obtain ⟨t, _, rfl, ht, t', mid, rfl, ⟨ht', hname⟩, hmid⟩ := hts
        obtain ⟨mid', hmid, hmid'⟩ := Spelled.append_iff.1 hmid
        exact ⟨t, t', mid, mid', rfl, ht, ht', hname, hmid, hmid'.ne_nil hrest',
          .inr ⟨List.cons_ne_nil _ _, hmid'⟩⟩
    obtain ⟨t, t', mid, mid', rfl, ht, ht', hname, hmid, hmid', hbehind⟩ := hnames
    have hfront : (front mid').kind ≠ .comma := by
      rcases hbehind with ⟨-, rfl⟩ | ⟨-, t₁, _, rfl, ht₁ : t₁.kind = _, -⟩
      · rw [hrest]
        decide
      · rw [front, List.headD_cons, ht₁]
        decide
    have hk := hn.suffix ((List.suffix_cons t' mid).trans (List.suffix_cons t _)) (hmid.ne_nil hmid')
    refine gives_peek_bind ?_
    rw [show (front (t :: t' :: mid)).kind = _ from ht]
    refine gives_advance_bind (.of_run (eat_run_ne (by rw [front, List.tail_cons, List.headD_cons, ht']; decide)) ?_)
    refine .of_run (binder_run ht') ((gives_moreNames hmid hmid' hfront hk).bind fun bs' hbs' => ?_)
    have hvars : (⟨t'.lexeme, t'.pos⟩ :: bs' : List Binder).map Binder.unplaced =
        (b :: bs).map Binder.unplaced := congrArg₂ (fun name bs => Binder.mk name .start :: bs) hname hbs'
    rcases hbehind with ⟨rfl, rfl⟩ | ⟨hne, t₁, mid'', rfl, ht₁ : t₁.kind = _, hmid''⟩
    · refine .of_run (eat_run_ne (by rw [hrest]; decide)) (.pure ?_)
      exact congrArg (Stmt.localVars · [] .start) hvars
    · refine .of_run (eat_run ht₁) ?_
      have hk' := hk.suffix ((List.suffix_cons t₁ mid'').trans hmid.suffix) (hmid''.ne_nil hrest')
      refine (gives_exprs hvalues hne hmid'' (by rw [hrest]; rfl) (by rw [hrest]; decide) hk').bind ?_
      exact fun values' hvalues' => .pure (congrArg₂ (Stmt.localVars · · .start) hvars hvalues')

lemma localFunction {var : Binder} {f : RawFunction} (hf : f.ReadBack) :
    (Stmt.localFunction var f pos : RawStmt).ReadBack := by
  intro n ts rest hts hrest hn
  have hrest' : rest ≠ [] := ne_nil_of_front (by rw [hrest]; decide)
  obtain ⟨t, _, rfl, ht : t.kind = _, t', _, rfl, ht', t'', mid, rfl, ⟨ht'', hname⟩, hmid⟩ := hts
  refine gives_peek_bind ?_
  rw [show (front (t :: t' :: t'' :: mid)).kind = _ from ht]
  refine gives_advance_bind (.of_run (eat_run ht') (.of_run (binder_run ht'') ?_))
  have hk := hn.suffix ((List.suffix_cons t'' mid).trans
    ((List.suffix_cons t' _).trans (List.suffix_cons t _))) (hmid.ne_nil hrest')
  refine (hf n _ mid rest hmid hrest' hk).bind fun f' hf' => .pure ?_
  exact congrArg₂ (fun name f => Stmt.localFunction (Binder.mk name .start) f .start) hname hf'

lemma functionDecl {target : RawExpr} {f : RawFunction}
    (hs : (Stmt.functionDecl target f pos).Grammatical) (hf : f.ReadBack) :
    (Stmt.functionDecl target f pos).ReadBack := by
  intro n ts rest hts hrest hn
  have hrest' : rest ≠ [] := ne_nil_of_front (by rw [hrest]; decide)
  obtain ⟨t, mid, rfl, ht : t.kind = _, hmid⟩ := hts
  obtain ⟨mid', htarget, hmid'⟩ := Spelled.append_iff.1 hmid
  have hfront : (front mid').kind = .lParen := by
    cases f with
    | mk params variadic body =>
      obtain ⟨t', _, rfl, ht' : t'.kind = _, -⟩ := hmid'
      exact ht'
  have hk := (hn.behind (hmid.ne_nil hrest')).succ
  obtain ⟨t', mid'', m, target', rfl, ht', halike, hm, hrun⟩ :=
    path_readBack t.pos target hs.regular htarget (hmid'.ne_nil hrest') hk
  refine gives_peek_bind ?_
  rw [show (front (t :: t' :: mid'')).kind = _ from ht]
  refine gives_advance_bind (.of_run (binder_run ht') ?_)
  refine .of_run (hrun.trans (path_stop hfront hm)) ?_
  refine (hf n _ mid' rest hmid' hrest' (hk.suffix htarget.suffix (hmid'.ne_nil hrest'))).bind ?_
  exact fun f' hf' => .pure (congrArg₂ (Stmt.functionDecl · · .start) halike hf')

lemma assign {targets values : List RawExpr} (hs : (Stmt.assign targets values pos).Grammatical)
    (htargets : ∀ e ∈ targets, e.ReadBack) (hvalues : ∀ e ∈ values, e.ReadBack) :
    (Stmt.assign targets values pos).ReadBack := by
  intro n ts rest hts hrest hn
  have hrest' : rest ≠ [] := ne_nil_of_front (by rw [hrest]; decide)
  obtain ⟨hne, hne', hassignable⟩ := hs.regular
  cases targets with
  | nil => exact absurd rfl hne
  | cons e es =>
    obtain ⟨_, htargetsWords, t, mid, rfl, ht : t.kind = _, hmid⟩ := Spelled.append_iff.1 hts
    obtain ⟨mid', he, hes⟩ := Spelled.append_iff.1 htargetsWords
    have hhead := Expr.isHead_of_isAssignable (hassignable e List.mem_cons_self)
    refine of_exprStmt (hs.child (.head _)) hhead he ?_
    have hmid' : (front mid').kind = .assign ∨ (front mid').kind = .comma := by
      cases es with
      | nil =>
        obtain rfl : mid' = _ := hes
        exact .inl ht
      | cons =>
        obtain ⟨t', _, rfl, ht' : t'.kind = _, -⟩ := hes
        exact .inr ht'
    have hstop : (front mid').kind.startsSuffix = false ∧
        BinaryOp.ofAssignment? (front mid').kind = none := by
      rcases hmid' with hk | hk <;> rw [hk] <;> exact ⟨rfl, rfl⟩
    have hmidne : mid' ≠ [] := hes.ne_nil (List.cons_ne_nil _ _)
    refine (((htargets e List.mem_cons_self).suffixes hhead).gives he hmidne hstop.1 hn).bind
      fun e' he' => gives_peek_bind ?_
    rw [hstop.2]
    dsimp only
    rw [if_pos hmid']
    refine (gives_moreTargets (fun e he => htargets e (List.mem_cons_of_mem _ he))
      (fun e he => hassignable e (List.mem_cons_of_mem _ he)) hes ht
      (hn.suffix he.suffix hmidne)).bind fun es' hes' => .of_run (expect_run ht) ?_
    have htargets' : ExprsAlike (e' :: es') (e :: es) := congrArg₂ List.cons he' hes'
    refine .of_run (checkAssignables_run htargets' hassignable) ?_
    have hk := (hn.suffix htargetsWords.suffix (List.cons_ne_nil _ _)).behind (hmid.ne_nil hrest')
    refine (gives_exprs hvalues hne' hmid (by rw [hrest]; rfl) (by rw [hrest]; decide) hk).bind ?_
    exact fun values' hvalues' => .pure (congrArg₂ (Stmt.assign · · .start) htargets' hvalues')

lemma compound {op : BinaryOp} {target value : RawExpr}
    (hs : (Stmt.compound op target value pos).Grammatical) (htarget : target.ReadBack)
    (hvalue : value.ReadBack) : (Stmt.compound op target value pos).ReadBack := by
  intro n ts rest hts hrest hn
  have hrest' : rest ≠ [] := ne_nil_of_front (by rw [hrest]; decide)
  obtain ⟨hop, hassignable⟩ := hs.regular
  obtain ⟨_, ht, t, mid, rfl, hk : t.kind = _, hmid⟩ := Spelled.append_iff.1 hts
  have hhead := Expr.isHead_of_isAssignable hassignable
  refine of_exprStmt (hs.child (.head _)) hhead ht ?_
  have hstop : (front (t :: mid)).kind.startsSuffix = false := by
    rw [front, List.headD_cons, hk]
    cases op <;> rfl
  refine ((htarget.suffixes hhead).gives ht (List.cons_ne_nil _ _) hstop hn).bind
    fun target' halike => gives_peek_bind ?_
  rw [show BinaryOp.ofAssignment? (front (t :: mid)).kind = some op from (congrArg _ hk).trans hop]
  refine gives_advance_bind (.of_run (checkAssignable_run ?_) ?_)
  · rw [Expr.Alike.isAssignable halike]
    exact hassignable
  · have hn' := (hn.suffix ht.suffix (List.cons_ne_nil _ _)).behind (hmid.ne_nil hrest')
    refine (hvalue.gives hmid (by rw [hrest]; rfl) hn').bind fun value' hvalue' => .pure ?_
    exact congrArg₂ (Stmt.compound op · · .start) halike hvalue'

lemma expr {e : RawExpr} (hs : (Stmt.expr e).Grammatical) (he : e.ReadBack) :
    (Stmt.expr e).ReadBack := by
  intro n ts rest hts hrest hn
  have hrest' : rest ≠ [] := ne_nil_of_front (by rw [hrest]; decide)
  have hhead := Expr.isHead_of_isCall hs.regular
  refine of_exprStmt (hs.child (.head _)) hhead hts ?_
  refine ((he.suffixes hhead).gives hts hrest' (by rw [hrest]; rfl) hn).bind
    fun e' halike => gives_peek_bind ?_
  rw [hrest]
  dsimp only [BinaryOp.ofAssignment?]
  rw [if_neg (by decide), if_pos ((Expr.Alike.isCall halike).trans hs.regular)]
  exact .pure (congrArg Stmt.expr halike)

lemma block {body : RawBlock} (hbody : body.ReadBack) : (Stmt.block body).ReadBack := by
  intro n ts rest hts hrest hn
  have hrest' : rest ≠ [] := ne_nil_of_front (by rw [hrest]; decide)
  obtain ⟨t, mid, rfl, ht : t.kind = _, hmid⟩ := hts
  obtain ⟨t', _, ht', rfl, -, hrun⟩ := hbody.gives_before rfl hmid (hn.behind (hmid.ne_nil hrest'))
  refine gives_peek_bind ?_
  rw [show (front (t :: mid)).kind = _ from ht]
  refine gives_advance_bind (hrun.bind fun body' hbody' => .of_run (expect_run ht') (.pure ?_))
  exact congrArg Stmt.block hbody'

lemma conditional {condition : RawExpr} {body : RawBlock} {a : Alternative String Binder}
    (hcondition : condition.ReadBack) (hbody : body.ReadBack) (ha : ∀ c ∈ a.children, c.ReadBack) :
    (Stmt.conditional condition body a pos).ReadBack := by
  intro n ts rest hts hrest hn
  have hrest' : rest ≠ [] := ne_nil_of_front (by rw [hrest]; decide)
  obtain ⟨t, mid, rfl, ht : t.kind = _, hmid⟩ := hts
  have hk := hn.behind (hmid.ne_nil hrest')
  obtain ⟨t', mid', ht', hmid', hsuffix, hcrun⟩ := hcondition.gives_before rfl hmid hk
  have hk' := hk.suffix hsuffix (hmid'.ne_nil hrest')
  obtain ⟨mid'', hb, hmid''⟩ := Spelled.append_iff.1 hmid'
  obtain ⟨_, hawords, t'', rest, rfl, ht'' : t''.kind = _, rfl⟩ := Spelled.append_iff.1 hmid''
  have hfront : endsBlock (front mid'').kind := by
    cases a with
    | none =>
      obtain rfl : mid'' = _ := hawords
      rw [front, List.headD_cons, ht'']
      rfl
    | otherwise | elseIf =>
      obtain ⟨t₁, _, rfl, ht₁ : t₁.kind = _, -⟩ := hawords
      rw [front, List.headD_cons, ht₁]
      rfl
  refine gives_peek_bind ?_
  rw [show (front (t :: mid)).kind = _ from ht]
  refine gives_advance_bind (hcrun.bind fun condition' hc => .of_run (expect_run ht') ?_)
  refine (hbody n mid' mid'' hb hfront (hawords.ne_nil (List.cons_ne_nil _ _)) hk').bind fun body' hb' => ?_
  refine (gives_alternative a ha hawords ht''
    (hk'.suffix hb.suffix (hawords.ne_nil (List.cons_ne_nil _ _))).succ).bind fun a' ha' => ?_
  refine .of_run (expect_run ht'') (.pure ?_)
  change Stmt.conditional _ _ _ _ = Stmt.conditional _ _ _ _
  rw [hc, hb', ha']

lemma whileLoop {condition : RawExpr} {body : RawBlock} (hcondition : condition.ReadBack)
    (hbody : body.ReadBack) : (Stmt.whileLoop condition body pos).ReadBack := by
  intro n ts rest hts hrest hn
  have hrest' : rest ≠ [] := ne_nil_of_front (by rw [hrest]; decide)
  obtain ⟨t, mid, rfl, ht : t.kind = _, hmid⟩ := hts
  have hk := hn.behind (hmid.ne_nil hrest')
  obtain ⟨t', mid', ht', hmid', hsuffix, hcrun⟩ := hcondition.gives_before rfl hmid hk
  obtain ⟨t'', _, ht'', rfl, -, hbrun⟩ :=
    hbody.gives_before rfl hmid' (hk.suffix hsuffix (hmid'.ne_nil hrest'))
  refine gives_peek_bind ?_
  rw [show (front (t :: mid)).kind = _ from ht]
  refine gives_advance_bind (hcrun.bind fun condition' hc => .of_run (expect_run ht') ?_)
  refine hbrun.bind fun body' hb => .of_run (expect_run ht'') (.pure ?_)
  exact congrArg₂ (Stmt.whileLoop · · .start) hc hb

lemma repeatLoop {condition : RawExpr} {body : RawBlock} (hbody : body.ReadBack)
    (hcondition : condition.ReadBack) : (Stmt.repeatLoop body condition pos).ReadBack := by
  intro n ts rest hts hrest hn
  have hrest' : rest ≠ [] := ne_nil_of_front (by rw [hrest]; decide)
  obtain ⟨t, mid, rfl, ht : t.kind = _, hmid⟩ := hts
  have hk := hn.behind (hmid.ne_nil hrest')
  obtain ⟨t', mid', ht', hmid', hsuffix, hbrun⟩ := hbody.gives_before rfl hmid hk
  refine gives_peek_bind ?_
  rw [show (front (t :: mid)).kind = _ from ht]
  refine gives_advance_bind (hbrun.bind fun body' hb => .of_run (expect_run ht') ?_)
  refine (hcondition.gives hmid' (by rw [hrest]; rfl) (hk.suffix hsuffix (hmid'.ne_nil hrest'))).bind ?_
  exact fun condition' hc => .pure (congrArg₂ (Stmt.repeatLoop · · .start) hb hc)

/-- A loop over numbers; its step is optional. -/
lemma numericFor {var : Binder} {start limit : RawExpr} {step : Option RawExpr} {body : RawBlock}
    (hstart : start.ReadBack) (hlimit : limit.ReadBack) (hstep : ∀ e ∈ step, e.ReadBack)
    (hbody : body.ReadBack) : (Stmt.numericFor var start limit step body pos).ReadBack := by
  intro n ts rest hts hrest hn
  have hrest' : rest ≠ [] := ne_nil_of_front (by rw [hrest]; decide)
  obtain ⟨t, _, rfl, ht : t.kind = _, t', _, rfl, ⟨ht', hname⟩, t'', mid, rfl, ht'', hmid⟩ := hts
  have hk := ((hn.behind (List.cons_ne_nil _ _)).suffix ((List.suffix_cons t'' mid).trans
    (List.suffix_cons t' _)) (hmid.ne_nil hrest'))
  obtain ⟨t₁, mid₁, ht₁, hmid₁, hsuffix₁, hstartrun⟩ := hstart.gives_before rfl hmid hk
  have hk₁ := hk.suffix hsuffix₁ (hmid₁.ne_nil hrest')
  obtain ⟨mid₂, hlimitWords, hmid₂⟩ := Spelled.append_iff.1 hmid₁
  refine gives_peek_bind ?_
  rw [show (front (t :: t' :: t'' :: mid)).kind = _ from ht]
  refine gives_advance_bind (.of_run (binder_run ht') (.of_run (eat_run ht'') ?_))
  refine hstartrun.bind fun start' hstart' => .of_run (expect_run ht₁) ?_
  -- what stands behind the step
  have hbehind : ∀ (step' : Option RawExpr) (t₃ : Token) (mid₃ : List Token),
      unplacedOption Binder.unplaced step' = unplacedOption Binder.unplaced step → t₃.kind = .kwDo →
      Spelled (body.words ++ [.fixed .kwEnd]) mid₃ rest → Below n mid₃ →
      ∀ limit' : RawExpr, limit'.Alike limit → (do
        let _ ← expect .kwDo
        let body ← Grammar.block (level n)
        let _ ← expect .kwEnd
        return Stmt.numericFor ⟨t'.lexeme, t'.pos⟩ start' limit' step' body t.pos : Parser RawStmt).Gives
      (·.Alike (.numericFor var start limit step body pos)) (t₃ :: mid₃) rest := by
    intro step' t₃ mid₃ hstep' ht₃ hmid₃ hk₃ limit' hlimit'
    obtain ⟨t₄, _, ht₄, rfl, -, hbrun⟩ := hbody.gives_before rfl hmid₃ hk₃
    refine .of_run (expect_run ht₃) (hbrun.bind fun body' hb => .of_run (expect_run ht₄) (.pure ?_))
    change Stmt.numericFor (Binder.mk t'.lexeme .start) _ _ _ _ .start =
      .numericFor (Binder.mk var.name .start) _ _ _ _ .start
    rw [hname, hstart', hlimit', hstep', hb]
  cases step with
  | none =>
    obtain ⟨t₃, mid₃, rfl, ht₃ : t₃.kind = _, hmid₃⟩ := hmid₂
    have hk₃ := hk₁.suffix ((List.suffix_cons t₃ mid₃).trans hlimitWords.suffix) (hmid₃.ne_nil hrest')
    refine (hlimit.gives hlimitWords (by rw [front, List.headD_cons, ht₃]; rfl) hk₁).bind
      fun limit' hlimit' => ?_
    refine .of_run (eat_run_ne (by rw [front, List.headD_cons, ht₃]; decide)) ?_
    exact hbehind none t₃ mid₃ rfl ht₃ hmid₃ hk₃ limit' hlimit'
  | some step =>
    obtain ⟨t₂, mid₃, rfl, ht₂ : t₂.kind = _, hmid₃⟩ := hmid₂
    have hk₂ := hk₁.suffix ((List.suffix_cons t₂ mid₃).trans hlimitWords.suffix) (hmid₃.ne_nil hrest')
    obtain ⟨t₃, mid₄, ht₃, hmid₄, hsuffix₄, hsteprun⟩ :=
      (hstep step rfl).gives_before rfl hmid₃ hk₂
    refine (hlimit.gives hlimitWords (by rw [front, List.headD_cons, ht₂]; rfl) hk₁).bind
      fun limit' hlimit' => ?_
    refine .of_run (eat_run ht₂) (hsteprun.bind fun step' hstep' => ?_)
    exact hbehind (some step') t₃ mid₄ (congrArg some hstep') ht₃ hmid₄
      (hk₂.suffix hsuffix₄ (hmid₄.ne_nil hrest')) limit' hlimit'

lemma genericFor {vars : List Binder} {values : List RawExpr} {body : RawBlock}
    (hs : (Stmt.genericFor vars values body pos).Grammatical) (hvalues : ∀ e ∈ values, e.ReadBack)
    (hbody : body.ReadBack) : (Stmt.genericFor vars values body pos).ReadBack := by
  intro n ts rest hts hrest hn
  have hrest' : rest ≠ [] := ne_nil_of_front (by rw [hrest]; decide)
  cases vars with
  | nil => exact absurd rfl hs.regular.1
  | cons b bs =>
    obtain ⟨t, _, rfl, ht : t.kind = _, t', mid, rfl, ⟨ht', hname⟩, hmid⟩ := hts
    obtain ⟨_, hnames, t₁, mid₁, rfl, ht₁ : t₁.kind = _, hmid₁⟩ := Spelled.append_iff.1 hmid
    have hk := hn.suffix ((List.suffix_cons t' mid).trans (List.suffix_cons t _)) (hmid.ne_nil hrest')
    have hk₁ := ((hn.behind (List.cons_ne_nil _ _)).suffix ((List.suffix_cons t₁ mid₁).trans
      (hnames.suffix.trans (List.suffix_cons t' mid))) (hmid₁.ne_nil hrest'))
    obtain ⟨t₂, mid₂, ht₂, hmid₂, hsuffix₂, hvaluesrun⟩ :=
      gives_exprs_before hvalues hs.regular.2 rfl (by decide) hmid₁ hk₁
    obtain ⟨t₃, _, ht₃, rfl, -, hbrun⟩ :=
      hbody.gives_before rfl hmid₂ (hk₁.suffix hsuffix₂ (hmid₂.ne_nil hrest'))
    have hassign : (front mid).kind ≠ .assign := by
      cases bs with
      | nil =>
        obtain rfl : mid = _ := hnames
        rw [front, List.headD_cons, ht₁]
        decide
      | cons =>
        obtain ⟨t₀, _, rfl, ht₀ : t₀.kind = _, -⟩ := hnames
        rw [front, List.headD_cons, ht₀]
        decide
    refine gives_peek_bind ?_
    rw [show (front (t :: t' :: mid)).kind = _ from ht]
    refine gives_advance_bind (.of_run (binder_run ht') (.of_run (eat_run_ne hassign) ?_))
    refine (gives_moreNames hnames (List.cons_ne_nil _ _)
      (by rw [front, List.headD_cons, ht₁]; decide) hk).bind fun bs' hbs' => ?_
    refine .of_run (expect_run ht₁) (hvaluesrun.bind fun values' hvalues' => ?_)
    refine .of_run (expect_run ht₂) (hbrun.bind fun body' hb => .of_run (expect_run ht₃) (.pure ?_))
    change Stmt.genericFor (Binder.mk t'.lexeme .start :: bs'.map _) _ _ .start =
      .genericFor (Binder.mk _ .start :: bs.map _) _ _ .start
    rw [hname, hbs', hvalues', hb]

lemma ret {values : List RawExpr} (hs : (Stmt.ret values pos).Grammatical)
    (hvalues : ∀ e ∈ values, e.ReadBack) : (Stmt.ret values pos).ReadBack := by
  intro n ts rest hts hrest hn
  have hrest' : rest ≠ [] := ne_nil_of_front (by rw [hrest]; decide)
  obtain ⟨t, mid, rfl, ht : t.kind = _, hmid⟩ := hts
  refine gives_peek_bind ?_
  rw [show (front (t :: mid)).kind = _ from ht]
  refine gives_advance_bind (gives_kind_bind ?_)
  cases values with
  | nil =>
    obtain rfl : mid = rest := hmid
    rw [List.tail_cons, if_pos (.inr hrest)]
    exact .pure rfl
  | cons e es =>
    obtain ⟨mid', he, -⟩ := Spelled.append_iff.1 hmid
    have hfront := Expr.startsExpr_of_spelled (hs.child (.head _)) he
    rw [List.tail_cons, if_neg]
    · refine (gives_exprs hvalues (List.cons_ne_nil _ _) hmid (by rw [hrest]; rfl)
        (by rw [hrest]; decide) (hn.behind (hmid.ne_nil hrest'))).bind fun values' hvalues' => ?_
      exact .pure (congrArg (Stmt.ret · .start) hvalues')
    · intro hends
      revert hfront hends
      generalize (front mid).kind = k
      cases k <;> decide

lemma leave : (Stmt.leave pos : RawStmt).ReadBack := by
  intro n ts rest hts hrest hn
  obtain ⟨t, _, rfl, ht : t.kind = _, rfl⟩ := hts
  refine gives_peek_bind ?_
  rw [show (front (t :: _)).kind = _ from ht]
  exact gives_advance_bind (.pure rfl)

end Stmt.ReadBack

/-! ## Blocks -/

/-- **The statements of a block are read back**, each with its semicolon. -/
lemma gives_stmts {ss : List RawStmt} (hss : ∀ s ∈ ss, s.ReadBack)
    (hgrammatical : ∀ s ∈ ss, s.Grammatical) (hexit : ∀ s ∈ ss.dropLast, s.isExit = false)
    (hts : Spelled (stmtsWords ss) ts rest) (hends : endsBlock (front rest).kind) (hrest : rest ≠ [])
    (hn : Below n ts) : (level n).stmts.Gives (fun ss' =>
      unplacedStmts Binder.unplaced ss' = unplacedStmts Binder.unplaced ss) ts rest := by
  induction ss generalizing n ts with
  | nil =>
    obtain rfl : ts = rest := hts
    obtain ⟨k, rfl⟩ := hn.exists_succ
    refine gives_kind_bind ?_
    rw [if_pos hends]
    exact .pure rfl
  | cons s ss ih =>
    obtain ⟨_, hs, t, mid, rfl, ht, hmid⟩ := Spelled.append_iff.1 hts
    obtain ⟨k, rfl⟩ := hn.exists_succ
    obtain ⟨hstarts, hleaves⟩ := Stmt.front_of_spelled (hgrammatical s List.mem_cons_self) hs
    refine gives_kind_bind ?_
    rw [hstarts, if_neg Bool.false_ne_true]
    refine (hss s List.mem_cons_self k ts _ hs ht hn).bind fun s' hs' => .of_run (eat_run ht) ?_
    by_cases hlast : s.isExit
    · -- a return or a break is the last statement
      rw [if_pos (hleaves.2 hlast)]
      cases ss with
      | nil =>
        obtain rfl : mid = rest := hmid
        exact .pure (congrArg (fun s => [s]) hs')
      | cons s₁ ss =>
        rw [hexit s List.mem_cons_self] at hlast
        cases hlast
    · rw [if_neg fun h => hlast (hleaves.1 h)]
      have hk := (hn.suffix hs.suffix (List.cons_ne_nil _ _)).behind (hmid.ne_nil hrest)
      refine (ih (fun s hs => hss s (List.mem_cons_of_mem _ hs))
        (fun s hs => hgrammatical s (List.mem_cons_of_mem _ hs)) (fun s₁ hs₁ => ?_) hmid hk).bind
          fun ss' hss' => .pure (congrArg₂ List.cons hs' hss')
      refine hexit s₁ ?_
      rw [List.dropLast_cons_of_ne_nil (by rintro rfl; cases hs₁)]
      exact List.mem_cons_of_mem _ hs₁

lemma Block.ReadBack.mk {pos : Position} {ss : List RawStmt} (hb : (Block.mk pos ss).Grammatical)
    (hss : ∀ s ∈ ss, s.ReadBack) : (Block.mk pos ss).ReadBack := by
  intro n ts rest hts hends hrest hn
  have hgives := gives_stmts hss (fun s hs => hb.child (List.mem_map_of_mem hs)) hb.regular hts hends
    hrest hn
  exact .of_run (show here ts = .ok ((front ts).pos, ts) from rfl)
    (hgives.bind fun ss' hss' => .pure (congrArg (Block.mk .start) hss'))

/-- **A node is read back** if the nodes below it are. -/
lemma Node.readBack_of_below {n : Node String Binder} (hn : n.Grammatical)
    (hbelow : ∀ c ∈ n.children, ∀ m ∈ c.nodes, m.ReadBack) : n.ReadBack := by
  have hparts : ∀ c ∈ n.children, c.ReadBack := fun c hc => hbelow c hc c c.mem_nodes_self
  have hfunction : ∀ {f : RawFunction}, Node.expr (.function f) ∈ n.children → f.ReadBack := by
    rintro ⟨params, variadic, body, pos⟩ hf
    exact .of_body (hbelow _ hf (.block body) (mem_nodes_of_mem_children (mem_nodes_self _) (.head _)))
  cases n with
  | expr e =>
    cases e with
    | nil pos => exact Expr.ReadBack.nil hn
    | varargs pos => exact Expr.ReadBack.varargs hn
    | bool value pos => exact Expr.ReadBack.bool hn
    | number value pos => exact Expr.ReadBack.number hn
    | string value pos => exact Expr.ReadBack.string hn
    | name ref pos => exact Expr.ReadBack.name hn
    | member object m pos => exact Expr.ReadBack.member hn (hparts _ (.head _))
    | index object key pos =>
      exact Expr.ReadBack.index hn (hparts _ (.head _)) (hparts _ (.tail _ (.head _)))
    | call callee args isMethod pos =>
      refine Expr.ReadBack.call hn (hparts _ (.head _)) ?_ fun e he =>
        hparts _ (List.mem_cons_of_mem _ (List.mem_map_of_mem he))
      rintro object m mpos rfl
      exact hbelow _ (.head _) (.expr object) (mem_nodes_of_mem_children (mem_nodes_self _) (.head _))
    | function f =>
      obtain ⟨params, variadic, body, pos⟩ := f
      exact Expr.ReadBack.function_mk hn (.of_body (hparts _ (.head _)))
    | table items pos => exact Expr.ReadBack.table hn fun i hi => hparts _ (List.mem_map_of_mem hi)
    | unary op operand pos => exact Expr.ReadBack.unary hn (hparts _ (.head _))
    | binary op left right pos =>
      exact Expr.ReadBack.binary hn (hparts _ (.head _)) (hparts _ (.tail _ (.head _)))
    | group inner pos => exact Expr.ReadBack.group hn (hparts _ (.head _))
  | item i =>
    cases i with
    | positional value => exact Item.ReadBack.positional (hn.child (.head _)) (hparts _ (.head _))
    | named name value => exact Item.ReadBack.named (hparts _ (.head _))
    | keyed key value => exact Item.ReadBack.keyed (hparts _ (.head _)) (hparts _ (.tail _ (.head _)))
  | stmt s =>
    cases s with
    | localVars vars values pos =>
      exact Stmt.ReadBack.localVars hn fun e he => hparts _ (List.mem_map_of_mem he)
    | localFunction var f pos => exact Stmt.ReadBack.localFunction (hfunction (.head _))
    | functionDecl target f pos => exact Stmt.ReadBack.functionDecl hn (hfunction (.tail _ (.head _)))
    | assign targets values pos =>
      exact Stmt.ReadBack.assign hn
        (fun e he => hparts _ (List.mem_append_left _ (List.mem_map_of_mem he)))
        fun e he => hparts _ (List.mem_append_right _ (List.mem_map_of_mem he))
    | compound op target value pos =>
      exact Stmt.ReadBack.compound hn (hparts _ (.head _)) (hparts _ (.tail _ (.head _)))
    | expr e => exact Stmt.ReadBack.expr hn (hparts _ (.head _))
    | block body => exact Stmt.ReadBack.block (hparts _ (.head _))
    | conditional condition body rest pos =>
      exact Stmt.ReadBack.conditional (hparts _ (.head _)) (hparts _ (.tail _ (.head _)))
        fun c hc => hparts c (.tail _ (.tail _ hc))
    | whileLoop condition body pos =>
      exact Stmt.ReadBack.whileLoop (hparts _ (.head _)) (hparts _ (.tail _ (.head _)))
    | repeatLoop body condition pos =>
      exact Stmt.ReadBack.repeatLoop (hparts _ (.head _)) (hparts _ (.tail _ (.head _)))
    | numericFor var start limit step body pos =>
      refine Stmt.ReadBack.numericFor (hparts _ (.head _)) (hparts _ (.tail _ (.head _)))
        (fun e he => hparts (.expr e) ?_) (hparts (.block body) ?_)
      · cases he
        exact .tail _ (.tail _ (.head _))
      · exact .tail _ (.tail _ (List.mem_append_right _ (.head _)))
    | genericFor vars values body pos =>
      exact Stmt.ReadBack.genericFor hn
        (fun e he => hparts _ (List.mem_append_left _ (List.mem_map_of_mem he)))
        (hparts _ (List.mem_append_right _ (.head _)))
    | ret values pos => exact Stmt.ReadBack.ret hn fun e he => hparts _ (List.mem_map_of_mem he)
    | leave pos => exact Stmt.ReadBack.leave
  | block b =>
    obtain ⟨pos, ss⟩ := b
    exact Block.ReadBack.mk hn fun s hs => hparts _ (List.mem_map_of_mem hs)

/-- **Every grammatical tree is read back** from its words, and so are all its nodes. -/
theorem Node.Grammatical.readBack {n : Node String Binder} (hn : n.Grammatical) :
    ∀ m ∈ n.nodes, m.ReadBack := by
  induction n using Node.induction with
  | step n ih =>
    have hbelow : ∀ c ∈ n.children, ∀ m ∈ c.nodes, m.ReadBack := fun c hc => ih c hc (hn.child hc)
    intro m hm
    rw [nodes_eq, List.mem_cons] at hm
    rcases hm with rfl | hm
    · exact readBack_of_below hn hbelow
    · obtain ⟨c, hc, hm⟩ := List.mem_flatMap.1 hm
      exact hbelow c hc m hm

/-! ## Spelling the words of a tree -/

/-- A part of a tree as words. -/
def Node.words : Node String Binder → List Word
  | expr e => e.words
  | item i => i.words
  | stmt s => s.words
  | block b => b.words

section Numbers

variable {v : Binary64}

lemma number_mem_moreExprsWords {es : List RawExpr} :
    Word.number v ∈ moreExprsWords es ↔ ∃ e ∈ es, Word.number v ∈ e.words := by
  induction es with
  | nil => simp [moreExprsWords]
  | cons e es ih => simp [moreExprsWords, ih]

lemma number_mem_exprsWords {es : List RawExpr} :
    Word.number v ∈ exprsWords es ↔ ∃ e ∈ es, Word.number v ∈ e.words := by
  cases es with
  | nil => simp [exprsWords]
  | cons e es => simp [exprsWords, number_mem_moreExprsWords]

lemma number_mem_moreItemsWords {is : List (Item String Binder)} :
    Word.number v ∈ moreItemsWords is ↔ ∃ i ∈ is, Word.number v ∈ i.words := by
  induction is with
  | nil => simp [moreItemsWords]
  | cons i is ih => simp [moreItemsWords, ih]

lemma number_mem_itemsWords {is : List (Item String Binder)} :
    Word.number v ∈ itemsWords is ↔ ∃ i ∈ is, Word.number v ∈ i.words := by
  cases is with
  | nil => simp [itemsWords]
  | cons i is => simp [itemsWords, number_mem_moreItemsWords]

lemma number_mem_stmtsWords {ss : List RawStmt} :
    Word.number v ∈ stmtsWords ss ↔ ∃ s ∈ ss, Word.number v ∈ s.words := by
  induction ss with
  | nil => simp [stmtsWords]
  | cons s ss ih => simp [stmtsWords, ih]

lemma number_notMem_moreNamesWords {bs : List Binder} : Word.number v ∉ moreNamesWords bs := by
  induction bs with
  | nil => simp [moreNamesWords]
  | cons b bs ih => simp [moreNamesWords, ih]

lemma number_notMem_namesWords {bs : List Binder} : Word.number v ∉ namesWords bs := by
  cases bs with
  | nil => simp [namesWords]
  | cons b bs => simp [namesWords, number_notMem_moreNamesWords]

lemma number_notMem_paramWords {params : List Binder} {variadic : Bool} :
    Word.number v ∉ paramWords params variadic := by
  fun_induction paramWords params variadic with
  | case1 | case2 | case3 => simp
  | case4 b bs variadic hmore ih => simp [ih]

lemma number_mem_methodWords {e : RawExpr} (h : Word.number v ∈ e.methodWords) :
    Word.number v ∈ e.words := by
  cases e with
  | member object m pos => simpa [Expr.methodWords, Expr.words] using h
  | _ => cases h

lemma number_mem_functionWords {f : RawFunction} (h : Word.number v ∈ f.words) :
    Word.number v ∈ f.body.words := by
  obtain ⟨params, variadic, body, pos⟩ := f
  simpa [Function.words, Function.body, number_notMem_paramWords] using h

lemma number_mem_alternativeWords : ∀ {a : Alternative String Binder}, Word.number v ∈ a.words →
    ∃ c ∈ a.children, Word.number v ∈ c.words
  | .none, h => by cases h
  | .otherwise body, h => ⟨.block body, .head _, by simpa [Alternative.words, Node.words] using h⟩
  | .elseIf condition body a, h => by
    simp only [Alternative.words, List.mem_cons, List.mem_append, reduceCtorEq, false_or] at h
    rcases h with h | h | h
    · exact ⟨_, .head _, h⟩
    · exact ⟨.block body, .tail _ (.head _), h⟩
    · obtain ⟨c, hc, h⟩ := number_mem_alternativeWords h
      exact ⟨c, .tail _ (.tail _ hc), h⟩

/-- A number among the words of a node is the node itself or among the words of one of its parts. -/
lemma Node.number_mem_words {n : Node String Binder} (h : Word.number v ∈ n.words) :
    (∃ pos, n = .expr (.number v pos)) ∨ ∃ c ∈ n.children, Word.number v ∈ c.words := by
  cases n with
  | expr e =>
    cases e with
    | number value pos =>
      obtain rfl : v = value := by simpa [words, Expr.words] using h
      exact .inl ⟨pos, rfl⟩
    | call callee args isMethod pos =>
      simp only [words, Expr.words, List.mem_append, List.mem_cons, reduceCtorEq, false_or,
        List.not_mem_nil, or_false, number_mem_exprsWords] at h
      right
      rcases h with h | ⟨e, he, h⟩
      · refine ⟨.expr callee, .head _, ?_⟩
        cases isMethod with
        | true => exact number_mem_methodWords h
        | false => exact h
      · exact ⟨.expr e, List.mem_cons_of_mem _ (List.mem_map_of_mem he), h⟩
    | function f =>
      refine .inr ⟨.block f.body, .head _, number_mem_functionWords ?_⟩
      simpa [words, Expr.words] using h
    | nil | varargs | bool | string | name => simp [words, Expr.words] at h
    | _ =>
      right
      simpa [words, Expr.words, children, Expr.children, number_mem_itemsWords] using h
  | item i =>
    right
    cases i <;> simpa [words, Item.words, children, Item.children] using h
  | stmt s =>
    right
    cases s with
    | localVars vars values pos =>
      cases values with
      | nil => simp [words, Stmt.words, number_notMem_namesWords] at h
      | cons e es =>
        simpa [words, Stmt.words, children, Stmt.children, number_notMem_namesWords,
          number_mem_moreExprsWords] using h
    | localFunction var f pos =>
      refine ⟨.expr (.function f), .head _, ?_⟩
      simpa [words, Stmt.words, Expr.words] using h
    | functionDecl target f pos =>
      simpa [words, Stmt.words, Expr.words, children, Stmt.children] using h
    | conditional condition body a pos =>
      simp only [words, Stmt.words, List.mem_append, List.mem_cons, reduceCtorEq, false_or,
        List.not_mem_nil, or_false] at h
      rcases h with h | h | h
      · exact ⟨.expr condition, .head _, h⟩
      · exact ⟨.block body, .tail _ (.head _), h⟩
      · obtain ⟨c, hc, h⟩ := number_mem_alternativeWords h
        exact ⟨c, .tail _ (.tail _ hc), h⟩
    | leave => simp [words, Stmt.words] at h
    | numericFor var start limit step body pos =>
      cases step <;>
        simpa [words, Stmt.words, children, Stmt.children, stepWords] using h
    | genericFor vars values body pos =>
      simp only [words, Stmt.words, List.mem_append, List.mem_cons, reduceCtorEq, false_or,
        List.not_mem_nil, or_false, number_mem_exprsWords, number_notMem_namesWords] at h
      rcases h with ⟨e, he, h⟩ | h
      · exact ⟨.expr e, List.mem_append_left _ (List.mem_map_of_mem he), h⟩
      · exact ⟨.block body, List.mem_append_right _ (.head _), h⟩
    | assign targets values pos =>
      simp only [words, Stmt.words, List.mem_append, List.mem_cons, reduceCtorEq, false_or,
        number_mem_exprsWords] at h
      rcases h with ⟨e, he, h⟩ | ⟨e, he, h⟩
      · exact ⟨.expr e, List.mem_append_left _ (List.mem_map_of_mem he), h⟩
      · exact ⟨.expr e, List.mem_append_right _ (List.mem_map_of_mem he), h⟩
    | _ => simpa [words, Stmt.words, children, Stmt.children, number_mem_exprsWords] using h
  | block b =>
    obtain ⟨pos, ss⟩ := b
    right
    simpa [words, Block.words, children, Block.stmts, number_mem_stmtsWords] using h

/-- A number among the words of a tree stands at one of its nodes. -/
lemma Node.exists_number (n : Node String Binder) : Word.number v ∈ n.words →
    ∃ pos, Node.expr (.number v pos) ∈ n.nodes := by
  induction n using Node.induction with
  | step n ih =>
    intro h
    rcases number_mem_words h with ⟨pos, rfl⟩ | ⟨c, hc, h⟩
    · exact ⟨pos, mem_nodes_self _⟩
    · obtain ⟨pos, hpos⟩ := ih c hc h
      refine ⟨pos, ?_⟩
      rw [nodes_eq]
      exact List.mem_cons_of_mem _ (List.mem_flatMap.2 ⟨c, hc, hpos⟩)

end Numbers

/-- **The words of a grammatical tree can be spelled.** -/
lemma exists_spells_words {n : Node String Binder} (hn : n.Grammatical) :
    ∀ w ∈ n.words, ∃ t, w.Spells t := by
  intro w hw
  cases w with
  | name name => exact ⟨⟨.ident, .start, name⟩, rfl, rfl⟩
  | string value => exact ⟨⟨.string, .start, value⟩, rfl, rfl⟩
  | fixed kind => exact ⟨⟨kind, .start, kind.spelling⟩, rfl⟩
  | number value =>
    obtain ⟨pos, hpos⟩ := n.exists_number hw
    obtain ⟨lexeme, hlexeme⟩ := hn _ hpos
    exact ⟨⟨.number, .start, lexeme⟩, rfl, hlexeme⟩

lemma exists_forall₂_spells {ws : List Word} (h : ∀ w ∈ ws, ∃ t, w.Spells t) :
    ∃ ts, List.Forall₂ Word.Spells ts ws := by
  induction ws with
  | nil => exact ⟨[], .nil⟩
  | cons w ws ih =>
    obtain ⟨t, ht⟩ := h w List.mem_cons_self
    obtain ⟨ts, hts⟩ := ih fun w hw => h w (List.mem_cons_of_mem _ hw)
    exact ⟨t :: ts, .cons ht hts⟩

/-! ## Programs -/

/-- **Parsing inverts printing.** The program of a list of tokens that the parser accepts can be written
as tokens canonically, and every such list of tokens has the same program up to places: the same statements
and expressions, the same numbers of declarations, and declarations of the same names and depths.

**Proof sketch.** With its names put back, the program is the parsed tree. It is grammatical, so it is read
back from its words, and binding does not look at places. -/
theorem parseChunk_words {tokens : List Token} {body : RawBlock} (h : parseChunk tokens = .ok body) :
    (∃ printed, List.Forall₂ Word.Spells printed (Program.ofBlock body).words) ∧
      ∀ printed, List.Forall₂ Word.Spells printed (Program.ofBlock body).words →
        ∃ body', parseChunk printed = .ok body' ∧
          (Program.ofBlock body').unplaced = (Program.ofBlock body).unplaced := by
  obtain ⟨hgrammatical, -⟩ := parseChunk_faithful h
  rw [Program.words, Program.ofBlock_rename]
  constructor
  · refine exists_forall₂_spells fun w hw => ?_
    rcases List.mem_append.1 hw with hw | hw
    · exact exists_spells_words hgrammatical w hw
    · exact ⟨⟨.eof, .start, ""⟩, by rw [List.mem_singleton.1 hw]; rfl⟩
  · intro printed hprinted
    obtain ⟨mid, hbody, t, _, rfl, ht : t.kind = .eof, rfl⟩ :=
      Spelled.append_iff.1 (Spelled.nil_iff.2 hprinted)
    have hback : body.ReadBack := hgrammatical.readBack _ (Node.mem_nodes_self _)
    obtain ⟨body', hrun, halike⟩ := hback printed.length printed [t] hbody
      (by rw [front, List.headD_cons, ht]; rfl) (List.cons_ne_nil _ _)
      ⟨hbody.ne_nil (List.cons_ne_nil _ _), le_refl _⟩
    refine ⟨body', ?_, ?_⟩
    · have hchunk : chunk (level printed.length) printed = .ok (body', [t]) := by
        rw [chunk, bind_ok hrun]
        refine (bind_ok (show peek [t] = .ok (t, [t]) from rfl)).trans ?_
        rw [if_pos ht]
        rfl
      rw [parseChunk, hchunk]
      rfl
    · rw [Program.unplaced_ofBlock, Program.unplaced_ofBlock, halike]

/-- The tokens of `return { f "x"; 7 }, -a ^ b .. c`. -/
def returnTokens : List Token :=
  [⟨.kwReturn, ⟨1, 1⟩, "return"⟩, ⟨.lBrace, ⟨1, 8⟩, "\x7b"⟩, ⟨.ident, ⟨1, 10⟩, "f"⟩,
    ⟨.string, ⟨1, 12⟩, "x"⟩, ⟨.semicolon, ⟨1, 15⟩, ";"⟩, ⟨.number, ⟨1, 17⟩, "7"⟩,
    ⟨.rBrace, ⟨1, 19⟩, "\x7d"⟩, ⟨.comma, ⟨1, 20⟩, ","⟩, ⟨.minus, ⟨1, 22⟩, "-"⟩,
    ⟨.ident, ⟨1, 23⟩, "a"⟩, ⟨.caret, ⟨1, 25⟩, "^"⟩, ⟨.ident, ⟨1, 27⟩, "b"⟩,
    ⟨.dotDot, ⟨1, 29⟩, ".."⟩, ⟨.ident, ⟨1, 32⟩, "c"⟩, ⟨.eof, ⟨1, 33⟩, ""⟩]

/-- Their tree. -/
def returnStatement : RawBlock :=
  .mk ⟨1, 1⟩ [.ret [
    .table [.positional (.call (.name "f" ⟨1, 10⟩) [.string "x" ⟨1, 12⟩] false ⟨1, 12⟩),
      .positional (.number ⟨0x401C000000000000⟩ ⟨1, 17⟩)] ⟨1, 8⟩,
    .binary .concat (.unary .neg (.binary .pow (.name "a" ⟨1, 23⟩) (.name "b" ⟨1, 27⟩) ⟨1, 25⟩)
      ⟨1, 22⟩) (.name "c" ⟨1, 32⟩) ⟨1, 29⟩] ⟨1, 1⟩]

/-- The call gets parentheses, the semicolon becomes a comma, and the operators need no parentheses. -/
example : returnStatement.words =
    [.fixed .kwReturn, .fixed .lBrace, .name "f", .fixed .lParen, .string "x", .fixed .rParen,
      .fixed .comma, .number ⟨0x401C000000000000⟩, .fixed .rBrace, .fixed .comma, .fixed .minus, .name "a",
      .fixed .caret, .name "b", .fixed .dotDot, .name "c", .fixed .semicolon] := by
  rfl

theorem returnStatement_words : parseChunk returnTokens = .ok returnStatement ∧
    (∃ printed, List.Forall₂ Word.Spells printed (Program.ofBlock returnStatement).words) ∧
      ∀ printed, List.Forall₂ Word.Spells printed (Program.ofBlock returnStatement).words →
        ∃ body', parseChunk printed = .ok body' ∧
          (Program.ofBlock body').unplaced = (Program.ofBlock returnStatement).unplaced := by
  have hparse : parseChunk returnTokens = .ok returnStatement := by rfl
  exact ⟨hparse, parseChunk_words hparse⟩

end ScriptCore
