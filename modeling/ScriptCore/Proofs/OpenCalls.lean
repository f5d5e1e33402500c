import ScriptCore.Proofs.CallRegisters
import ScriptCore.Proofs.CompiledCalls

set_option relaxedAutoImplicit false
set_option autoImplicit false

/-!
# Open arguments and open results

A call may pass any number of values, if its last argument is a call or the extra arguments: then
the operand `B` of its instruction is zero. A call may have any number of results: then its operand
`C` is zero. Two different functions of the compiler decide the two. They agree: a call whose last
argument is a call is emitted right behind that one, which leaves its results where they are
passed from, and apart from these only the last values of lists have open results.

## Main definitions

* `ScriptCore.Call.EndsInMany` — the last argument of a call is a call or the extra arguments.
* `ScriptCore.Stmt.EndsValuesAt` — the last value of a statement that takes a list of them.
* `ScriptCore.CompiledUnit.MatchesOpenCalls` — open arguments and open results agree.

## Main results

* `ScriptCore.placement_want` — how many results the compiler wants of a node.
* `ScriptCore.Program.located_adjacent` — nothing is emitted between a call and a call that is
  its last argument.
* `ScriptCore.Compiler.compileProgram_openCalls` — they agree in every compiled unit.
-/

namespace ScriptCore

/-! ## Positions -/

/-- The last argument of a call is directly a call or the extra arguments. -/
def Call.EndsInMany (k : Call) : Prop :=
  ∃ e, k.args.getLast? = some e ∧
    ((∃ callee args isMethod pos, e = .call callee args isMethod pos) ∨ ∃ pos, e = .varargs pos)

lemma Call.isOpen_iff (k : Call) : k.isOpen = true ↔ k.EndsInMany := by
  have hmany : ∀ e : BoundExpr, e.isMultiValue = true ↔
      ((∃ callee args isMethod pos, e = .call callee args isMethod pos) ∨
        ∃ pos, e = .varargs pos) := by
    intro e
    cases e <;> simp [Expr.isMultiValue]
  rw [isOpen, EndsInMany]
  cases k.args.getLast? <;> simp [hmany]

/-- Part `i` of a statement is the last one of its values. -/
def Stmt.EndsValuesAt (s : BoundStmt) (i : ℕ) : Prop :=
  ∃ k values, s.values? = some (k, values) ∧ k ≤ i ∧ i + 1 = k + values.length

namespace Program

variable (p : Program)

/-- The last value of the list of a local, an assignment, a return or a generic loop is at an
address. -/
def EndsValues (a : List ℕ) : Prop :=
  ∃ b i s, a = b ++ [i] ∧ (Node.block p.body).at? b = some (.stmt s) ∧ s.EndsValuesAt i

/-- The expression of a statement that is only a call is at an address. -/
def IsStatement (a : List ℕ) : Prop :=
  ∃ b e, a = b ++ [0] ∧ (Node.block p.body).at? b = some (.stmt (.expr e))

/-- The last argument of a call is at an address. -/
def EndsArguments (a : List ℕ) : Prop :=
  ∃ b k, p.callAt? b = some k ∧ k.args ≠ [] ∧ a = b ++ [k.args.length]

end Program

/-- **Open arguments and open results agree** in the calls emitted for a program. A call is emitted
right before another one if the two are neighbours in the list of calls: only words that try the
fast path of the second one are between their words. -/
structure CompiledUnit.MatchesOpenCalls (p : Program) (es : List EmittedCall) : Prop where
  /-- A call passes all there is exactly if its last argument has any number of values. -/
  arguments : ∀ e ∈ es, e.instruction.b = 0 ↔ e.call.EndsInMany
  /-- If that is a call, it is emitted right before, leaves all of its results, and leaves them
  where they are passed from. -/
  producer : ∀ e ∈ es, ∀ callee args isMethod pos,
    e.call.args.getLast? = some (.call callee args isMethod pos) →
    ∃ front inner back, es = front ++ inner :: e :: back ∧
      inner.address = e.address ++ [e.call.args.length] ∧
      inner.call = ⟨callee, args, isMethod, pos⟩ ∧ inner.instruction.c = 0 ∧
      inner.instruction.a.toNat = e.instruction.a.toNat + e.call.passed
  /-- A call leaves all of its results exactly if it is emitted right before a call that passes all
  there is, as its last argument, or is the last value of a list. -/
  results : ∀ e ∈ es, e.instruction.c = 0 ↔
    (∃ front outer back, es = front ++ e :: outer :: back ∧ outer.instruction.b = 0 ∧
      outer.call.args ≠ [] ∧ e.address = outer.address ++ [outer.call.args.length]) ∨
    p.EndsValues e.address
  /-- A call leaves no result exactly if it is a statement. -/
  statements : ∀ e ∈ es, e.instruction.c = 1 ↔ p.IsStatement e.address
  /-- Every other call leaves one result. -/
  rest : ∀ e ∈ es, e.instruction.c ≠ 0 → ¬p.IsStatement e.address → e.instruction.c = 2

/-! ## Wanted results -/

lemma Want.operand_eq_zero_iff (w : Want) : w.operand = 0 ↔ w = .all := by
  cases w <;> decide

lemma Want.operand_eq_one_iff (w : Want) : w.operand = 1 ↔ w = .none := by
  cases w <;> decide

/-- **A node is wanted as its position in its parent says.** -/
theorem placement_want {a : List ℕ} {i : ℕ} {x y : Place × Node Reference LocalId}
    (h : placement.at? (a ++ [i]) x = some y) :
    ∃ n, x.2.at? a = some n ∧ y.1.want = n.partWant i := by
  obtain ⟨z, hz, hy⟩ := placement.at?_concat_eq_some.1 h
  exact ⟨z.2, placement.node_of_at? hz, congrArg Place.want (place_of_places hy)⟩

/-- All results are wanted of last arguments and of last values. -/
lemma Node.partWant_eq_all_iff {i : ℕ} {n : Node Reference LocalId} :
    n.partWant i = .all ↔ (∃ k, n.call? = some k ∧ k.args ≠ [] ∧ i = k.args.length) ∨
      ∃ s, n = .stmt s ∧ s.EndsValuesAt i := by
  rw [partWant.eq_def]
  split
  · simp [call?]
  · simp [call?, Stmt.EndsValuesAt, Stmt.values?]
  · next s _ =>
    have hcall : ∀ k, (Node.stmt s).call? ≠ some k := fun k h => by cases h
    simp only [hcall, false_and, exists_false, false_or, Node.stmt.injEq, exists_eq_left',
      Stmt.EndsValuesAt]
    rcases s.values? with _ | ⟨k, values⟩ <;> simp
  · next hcall hexpr hstmt =>
    constructor
    · intro h
      cases h
    · rintro (⟨k, hk, -⟩ | ⟨s, rfl, -⟩)
      · exact (hcall _ _ _ _ (Node.call?_eq_some_iff.1 hk)).elim
      · exact (hstmt _ rfl).elim

/-- No result is wanted of the expression of a statement. -/
lemma Node.partWant_eq_none_iff {i : ℕ} {n : Node Reference LocalId} :
    n.partWant i = .none ↔ ∃ e, n = .stmt (.expr e) := by
  rw [partWant.eq_def]
  split
  · split_ifs <;> simp
  · simp
  · next s hs =>
    have hne : ¬∃ e, Node.stmt s = .stmt (.expr e) := fun ⟨e, he⟩ => hs e (Node.stmt.inj he)
    rw [iff_false_right hne]
    split
    · split_ifs <;> simp
    · simp
  · next _ hexpr _ =>
    constructor
    · intro h
      cases h
    · rintro ⟨e, rfl⟩
      exact (hexpr e rfl).elim

namespace Program

variable {p : Program} {a : List ℕ} {k l : PlacedCall}

/-- A call is a part of something. -/
lemma exists_parent (h : (a, k) ∈ p.located) :
    ∃ b i n, a = b ++ [i] ∧ (Node.block p.body).at? b = some n ∧
      n.children[i]? = some (.expr (.call k.call.callee k.call.args k.call.isMethod k.call.pos)) ∧
      k.place.want = n.partWant i := by
  obtain ⟨m, hm, hat⟩ := p.mem_located.1 h
  rcases List.eq_nil_or_concat a with rfl | ⟨b, i, rfl⟩
  · obtain ⟨-, rfl⟩ := Prod.mk.inj (Option.some.inj hat)
    cases hm
  · rw [List.concat_eq_append] at hat ⊢
    obtain ⟨n, hn, hwant⟩ := placement_want hat
    obtain ⟨n', hn', hi⟩ := Node.at?_concat_eq_some.1 (placement.node_of_at? hat)
    obtain rfl := Option.some.inj (hn'.symm.trans hn)
    exact ⟨b, i, n', rfl, hn, Node.call?_eq_some_iff.1 hm ▸ hi, hwant⟩

/-- All results are wanted of the calls that are last arguments or last values. -/
lemma want_eq_all_iff (h : (a, k) ∈ p.located) :
    k.place.want = .all ↔ p.EndsArguments a ∨ p.EndsValues a := by
  obtain ⟨b, i, n, rfl, hn, -, hwant⟩ := exists_parent h
  rw [hwant, Node.partWant_eq_all_iff]
  refine or_congr ⟨?_, ?_⟩ ⟨?_, ?_⟩
  · rintro ⟨c, hc, hne, rfl⟩
    exact ⟨b, c, by rw [callAt?, hn, Option.bind_some, hc], hne, rfl⟩
  · rintro ⟨b', c, hc, hne, heq⟩
    obtain ⟨rfl, hi⟩ := List.append_inj' heq rfl
    rw [callAt?, hn, Option.bind_some] at hc
    exact ⟨c, hc, hne, List.singleton_inj.1 hi⟩
  · rintro ⟨s, rfl, hs⟩
    exact ⟨b, i, s, rfl, hn, hs⟩
  · rintro ⟨b', j, s, heq, hs, hj⟩
    obtain ⟨rfl, hi⟩ := List.append_inj' heq rfl
    rw [hn] at hs
    exact ⟨s, Option.some.inj hs, List.singleton_inj.1 hi ▸ hj⟩

/-- No result is wanted of the calls that are statements. -/
lemma want_eq_none_iff (h : (a, k) ∈ p.located) :
    k.place.want = .none ↔ p.IsStatement a := by
  obtain ⟨b, i, n, rfl, hn, hi, hwant⟩ := exists_parent h
  rw [hwant, Node.partWant_eq_none_iff]
  constructor
  · rintro ⟨e, rfl⟩
    have hzero : i = 0 := by
      simpa [Node.children, Stmt.children] using (List.getElem?_eq_some_iff.1 hi).1
    exact ⟨b, e, by rw [hzero], hn⟩
  · rintro ⟨b', e, heq, he⟩
    obtain ⟨rfl, -⟩ := List.append_inj' heq rfl
    rw [hn] at he
    exact ⟨e, Option.some.inj he⟩

/-! ## Neighbours -/

/-- **Nothing is emitted between a call and a call that is its last argument.**

**Proof sketch.** What is emitted between the two comes between their addresses, so it lies in a
part of the outer call further to the right; but that argument is the last part. -/
theorem located_adjacent (hk : (a, k) ∈ p.located)
    (hl : (a ++ [k.call.args.length], l) ∈ p.located) :
    ∃ front back, p.located = front ++ (a ++ [k.call.args.length], l) :: (a, k) :: back := by
  refine Before.adjacent p.pairwise_before_located hl hk (.inside a _ []) ?_
  rintro ⟨b, m⟩ hm hab hba
  obtain ⟨j, c, rfl, hj⟩ := Before.between hab hba
  obtain ⟨n, hn, hat⟩ := p.mem_located.1 hk
  obtain ⟨_, -, hbt⟩ := p.mem_located.1 hm
  have hpart := placement.node_of_at? hbt
  rw [Node.at?_append, placement.node_of_at? hat, Option.bind_some, Node.at?,
    Option.bind_eq_some_iff, Node.call?_eq_some_iff.1 hn] at hpart
  obtain ⟨d, hd, -⟩ := hpart
  have hlt := (List.getElem?_eq_some_iff.1 hd).1
  simp only [Node.children, Expr.children, List.length_cons, List.length_map] at hlt
  omega

/-- A call that is the last argument of a call is there by its address. -/
lemma located_of_getLast? (hk : (a, k) ∈ p.located) {callee : BoundExpr} {args : List BoundExpr}
    {isMethod : Bool} {pos : Position}
    (hlast : k.call.args.getLast? = some (.call callee args isMethod pos)) :
    ∃ q, (a ++ [k.call.args.length], ⟨q, ⟨callee, args, isMethod, pos⟩⟩) ∈ p.located := by
  obtain ⟨n, hn, hat⟩ := p.mem_located.1 hk
  refine p.callAt?_eq_some_iff.1 ?_
  have hchild : n.children[k.call.args.length]? =
      some (.expr (.call callee args isMethod pos)) := by
    obtain ⟨front, hfront⟩ := List.getLast?_eq_some_iff.1 hlast
    rw [Node.call?_eq_some_iff.1 hn, hfront]
    simp [Node.children, Expr.children]
  rw [callAt?, Node.at?_concat_eq_some.2 ⟨n, placement.node_of_at? hat, hchild⟩]
  rfl

/-- The last argument is as far behind the function as there are values passed. -/
lemma registerAt_lastArgument (hk : (a, k) ∈ p.located) (hargs : k.call.args ≠ [])
    (hl : (a ++ [k.call.args.length], l) ∈ p.located) :
    p.registerAt (a ++ [k.call.args.length]) = p.registerAt a + k.call.passed := by
  obtain ⟨n, hn⟩ := Nat.exists_eq_succ_of_ne_zero (mt List.length_eq_zero_iff.1 hargs)
  rw [hn] at hl
  rw [Call.passed, hn, registerAt_argument hk hl]
  omega

/-- A call that is at the address of a last argument is the last argument. -/
lemma getLast?_of_located (hk : (a, k) ∈ p.located) (hargs : k.call.args ≠ [])
    (hl : (a ++ [k.call.args.length], l) ∈ p.located) : k.call.args.getLast? =
      some (.call l.call.callee l.call.args l.call.isMethod l.call.pos) := by
  obtain ⟨n, hn, hat⟩ := p.mem_located.1 hk
  obtain ⟨m, hm, hbt⟩ := p.mem_located.1 hl
  obtain ⟨z, hz, hpart⟩ := Node.at?_concat_eq_some.1 (placement.node_of_at? hbt)
  obtain rfl := Option.some.inj (hz.symm.trans (placement.node_of_at? hat))
  obtain ⟨front, e, hfront⟩ := (List.eq_nil_or_concat' k.call.args).resolve_left hargs
  rw [Node.call?_eq_some_iff.1 hn, Node.call?_eq_some_iff.1 hm, hfront] at hpart
  have hlast : e = .call l.call.callee l.call.args l.call.isMethod l.call.pos := by
    simpa [Node.children, Expr.children] using hpart
  rw [hfront, List.getLast?_concat, hlast]

/-! ## What is emitted -/

/-- A call passes all there is exactly if its last argument has any number of values. -/
lemma emission_b_eq_zero_iff (o : CompileOptions) (hfit : k.overflows = false) :
    (p.emission o (a, k)).instruction.b = 0 ↔ k.call.EndsInMany := by
  rw [← Call.isOpen_iff, ← UInt8.toNat_inj]
  show (Instruction.decode k.callWord).b.toNat = 0 ↔ _
  rw [PlacedCall.decode_callWord_b hfit]
  split_ifs with hopen <;> simp [hopen]

/-- A call leaves as many results as are wanted at its place. -/
lemma emission_c (o : CompileOptions) (x : List ℕ × PlacedCall) :
    (p.emission o x).instruction.c = x.2.place.want.operand := by
  rw [EmittedCall.instruction, emission, PlacedCall.decode_callWord]

/-- Neighbours are emitted one right behind the other. -/
lemma emissions_of_located (o : CompileOptions) {x y : List ℕ × PlacedCall}
    {front back : List (List ℕ × PlacedCall)} (h : p.located = front ++ x :: y :: back) :
    p.emissions o = front.map (p.emission o) ++ p.emission o x :: p.emission o y ::
      back.map (p.emission o) := by
  rw [emissions, h, List.map_append, List.map_cons, List.map_cons]

/-- The calls of a program none of which overflows match. -/
lemma matchesOpenCalls_emissions (o : CompileOptions)
    (hfit : ∀ x ∈ p.located, x.2.overflows = false) :
    CompiledUnit.MatchesOpenCalls p (p.emissions o) := by
  refine ⟨?_, ?_, ?_, ?_, ?_⟩
  · intro e he
    obtain ⟨⟨a, k⟩, hk, rfl⟩ := List.mem_map.1 he
    exact emission_b_eq_zero_iff o (hfit _ hk)
  · intro e he callee args isMethod pos hlast
    obtain ⟨⟨a, k⟩, hk, rfl⟩ := List.mem_map.1 he
    have hargs : k.call.args ≠ [] := List.getLast?_isSome.1 (Option.isSome_of_eq_some hlast)
    obtain ⟨q, hq⟩ := located_of_getLast? hk hlast
    obtain ⟨front, back, hsplit⟩ := located_adjacent hk hq
    refine ⟨_, _, _, emissions_of_located o hsplit, rfl, rfl, ?_, ?_⟩
    · rw [emission_c, Want.operand_eq_zero_iff, want_eq_all_iff hq]
      exact .inl ⟨a, k.call, p.callAt?_eq_some_iff.2 ⟨_, hk⟩, hargs, rfl⟩
    · have hregister := (keepsRegisters_emissions o hfit).function
      rw [hregister _ (List.mem_map_of_mem hq), hregister _ (List.mem_map_of_mem hk)]
      exact registerAt_lastArgument hk hargs hq
  · intro e he
    obtain ⟨⟨a, k⟩, hk, rfl⟩ := List.mem_map.1 he
    rw [emission_c, Want.operand_eq_zero_iff, want_eq_all_iff hk]
    refine or_congr ⟨?_, ?_⟩ Iff.rfl
    · rintro ⟨b, c, hc, hne, rfl⟩
      obtain ⟨q, hq⟩ := p.callAt?_eq_some_iff.1 hc
      obtain ⟨front, back, hsplit⟩ := located_adjacent hq hk
      have hopen : c.EndsInMany :=
        ⟨_, getLast?_of_located hq hne hk, .inl ⟨_, _, _, _, rfl⟩⟩
      exact ⟨_, _, _, emissions_of_located o hsplit,
        (emission_b_eq_zero_iff o (hfit _ hq)).2 hopen, hne, rfl⟩
    · rintro ⟨front, outer, back, hsplit, -, hne, haddress⟩
      have hmem : outer ∈ p.emissions o := by rw [hsplit]; simp
      obtain ⟨⟨b, l⟩, hl, rfl⟩ := List.mem_map.1 hmem
      exact ⟨b, l.call, p.callAt?_eq_some_iff.2 ⟨_, hl⟩, hne, haddress⟩
  · intro e he
    obtain ⟨⟨a, k⟩, hk, rfl⟩ := List.mem_map.1 he
    rw [emission_c, Want.operand_eq_one_iff, want_eq_none_iff hk]
    rfl
  · intro e he hzero hstatement
    obtain ⟨⟨a, k⟩, hk, rfl⟩ := List.mem_map.1 he
    rw [emission_c] at hzero ⊢
    rcases hwant : k.place.want with _ | _ | _
    · exact absurd ((want_eq_none_iff hk).1 hwant) hstatement
    · rfl
    · exact absurd ((Want.operand_eq_zero_iff _).2 hwant) hzero

end Program

namespace Compiler

/-- **Open arguments and open results agree.** If a program is compiled, its words are those of its
calls, and a call passes all there is exactly if its last argument has any number of values. If
this is a call, it is the one emitted right before, and its results start where the outer call
expects its last argument. Apart from these calls, only the last values of lists leave all of their
results; statements leave none, and every other call leaves one.

**Proof sketch.** The results of a call are those wanted at its place, which is told by its parent
node: so it leaves all of them if it is the last argument of a call or the last value of a list. The
arguments are open if the last one may have any number of values. Between a call that is the last
argument and the outer one nothing is emitted, since nothing in the program comes between their
addresses, and the register of the last argument is as far behind that of the function as there are
values passed. -/
theorem compileProgram_openCalls {p : Program} {c : Compiler} {u : CompiledUnit}
    (hu : ((compileProgram p).outcome c).1 = .ok u) :
    ∃ es, u.MadeOf p es ∧ CompiledUnit.MatchesOpenCalls p es := by
  obtain ⟨rfl, hfit⟩ := unit_of_compileProgram hu
  exact ⟨_, p.unit_madeOf c.options, Program.matchesOpenCalls_emissions c.options hfit⟩

theorem compileProgram_openCalls_nested :
    ((compileProgram nested).outcome (new {})).1 = .ok nestedUnit ∧
      ∃ es, nestedUnit.MadeOf nested es ∧ CompiledUnit.MatchesOpenCalls nested es := by
  have hcompile : ((compileProgram nested).outcome (new {})).1 = .ok nestedUnit := by cbv
  exact ⟨hcompile, compileProgram_openCalls hcompile⟩

end Compiler

end ScriptCore
