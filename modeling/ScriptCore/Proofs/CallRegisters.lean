import ScriptCore.Proofs.CallLayout

set_option relaxedAutoImplicit false
set_option autoImplicit false

/-!
# The registers of calls

While it lowers a program, the compiler hands out registers from one counter, which it saves and
restores. The register of a call depends on its position alone all the same: it can be read off
the path from the root. This file proves so, and that the registers fit into a byte, that the
compiler gives up exactly when they do not, and that a call inside an argument leaves the function
and the arguments before it alone.

## Main definitions

* `ScriptCore.Program.registerAt` — the register of an address.
* `ScriptCore.Program.InArgument` — an address inside an argument of a call.
* `ScriptCore.Instruction.Writes` — the registers a call puts its results into.
* `ScriptCore.CompiledUnit.KeepsRegisters` — what a compiled unit does with registers.

## Main results

* `ScriptCore.placement_register` — the compiler places a call at the register of its address.
* `ScriptCore.Compiler.compileProgram_registers` — register discipline of compilations.
-/

namespace ScriptCore

/-! ## Places by position -/

/-- The register of part `i` of a node at register `r`. The first part of a call is its callee; its
receiver, if it has one, is behind the function, and the arguments are behind that. The body of a
function has registers of its own. -/
def Node.partRegister (r : ℕ) (i : ℕ) : Node Reference LocalId → ℕ
  | .expr (.call _ _ isMethod _) => if i = 0 then r else r + (if isMethod then 1 else 0) + i
  | .expr (.function _) => 0
  | _ => r

/-- The values of a statement that takes a list of them, behind the number of its parts that come
before them. -/
def Stmt.values? : BoundStmt → Option (ℕ × List BoundExpr)
  | .localVars _ values _ => some (0, values)
  | .assign targets values _ => some (targets.length, values)
  | .genericFor _ values _ _ => some (0, values)
  | .ret values _ => some (0, values)
  | _ => none

/-- How many results are wanted of part `i` of a node. -/
def Node.partWant (i : ℕ) : Node Reference LocalId → Want
  | .expr (.call _ args _ _) => if args ≠ [] ∧ i = args.length then .all else .one
  | .stmt (.expr _) => .none
  | .stmt s =>
    match s.values? with
    | some (k, values) => if k ≤ i ∧ i + 1 = k + values.length then .all else .one
    | none => .one
  | _ => .one

/-- The register of the node at an address below a node at register `r`. -/
def Node.registerAt : List ℕ → ℕ → Node Reference LocalId → ℕ
  | [], r, _ => r
  | i :: a, r, n => (n.children[i]?.map (registerAt a (n.partRegister r i))).getD 0

lemma getElem?_valuePlaces (step : ℕ) (es : List BoundExpr) :
    ∀ r i : ℕ, (valuePlaces step r es)[i]? = es[i]?.map fun e =>
      ((⟨r + step * i, if i + 1 = es.length then .all else .one⟩, .expr e) :
        Place × Node Reference LocalId) := by
  induction es with
  | nil => intro r i; rfl
  | cons e es ih =>
    intro r i
    rcases i with _ | i
    · cases es <;> simp [valuePlaces]
    · have hreg : r + step + step * i = r + step * (i + 1) := by rw [Nat.mul_succ]; omega
      rw [valuePlaces, List.getElem?_cons_succ, List.getElem?_cons_succ, ih, hreg]
      simp

lemma length_valuePlaces (step r : ℕ) (es : List BoundExpr) :
    (valuePlaces step r es).length = es.length := by
  rw [← List.length_map Prod.snd, map_snd_valuePlaces, List.length_map]

/-- A value of a list is where the list is, and all of its results are wanted if it is the last
one. -/
lemma place_of_valuePlaces {r i : ℕ} {es : List BoundExpr} {x : Place × Node Reference LocalId}
    (hx : (valuePlaces 0 r es)[i]? = some x) :
    x.1 = ⟨r, if i + 1 = es.length then .all else .one⟩ := by
  rw [getElem?_valuePlaces] at hx
  obtain ⟨e, -, rfl⟩ := Option.map_eq_some_iff.1 hx
  rw [Nat.zero_mul, Nat.add_zero]

/-- **The parts of a node are placed as their positions say.** -/
lemma place_of_places {r i : ℕ} {n : Node Reference LocalId}
    {x : Place × Node Reference LocalId} (hx : (n.places r)[i]? = some x) :
    x.1 = ⟨n.partRegister r i, n.partWant i⟩ := by
  unfold Node.places at hx
  split at hx
  · next callee args isMethod _ =>
    rcases i with _ | i
    · obtain rfl := Option.some.inj hx
      rw [Node.partWant, if_neg]
      · rfl
      · rintro ⟨hne, hlen⟩
        exact hne (List.length_eq_zero_iff.1 hlen.symm)
    · rw [List.getElem?_cons_succ, getElem?_valuePlaces] at hx
      obtain ⟨e, he, rfl⟩ := Option.map_eq_some_iff.1 hx
      have hne : args ≠ [] := List.ne_nil_of_mem (List.mem_of_getElem? he)
      simp only [Node.partRegister, Node.partWant, hne, i.succ_ne_zero, ne_eq, not_false_eq_true,
        true_and, if_false, Place.mk.injEq, and_true]
      omega
  · rw [List.getElem?_singleton] at hx
    split_ifs at hx
    obtain rfl := Option.some.inj hx
    rfl
  · rw [List.getElem?_singleton] at hx
    split_ifs at hx
    obtain rfl := Option.some.inj hx
    rfl
  · simp [place_of_valuePlaces hx, Node.partRegister, Node.partWant, Stmt.values?]
  · simp [place_of_valuePlaces hx, Node.partRegister, Node.partWant, Stmt.values?]
  · next targets values _ =>
    rw [List.getElem?_append, List.length_map] at hx
    split_ifs at hx with hlt
    · rw [List.getElem?_map] at hx
      obtain ⟨e, -, rfl⟩ := Option.map_eq_some_iff.1 hx
      simp [Node.partRegister, Node.partWant, Stmt.values?, hlt]
    · rw [place_of_valuePlaces hx]
      simp only [Node.partRegister, Node.partWant, Stmt.values?]
      congr 2
      exact propext (by omega)
  · next values body _ =>
    rw [List.getElem?_append, length_valuePlaces] at hx
    split_ifs at hx with hlt
    · simp [place_of_valuePlaces hx, Node.partRegister, Node.partWant, Stmt.values?]
    · rw [List.getElem?_singleton] at hx
      split_ifs at hx with hi
      obtain rfl := Option.some.inj hx
      simp only [Node.partRegister, Node.partWant, Stmt.values?]
      rw [if_neg (by omega)]
  · next hcall hfunction hstatement hlocal hret hassign hfor =>
    rw [List.getElem?_map] at hx
    obtain ⟨c, -, rfl⟩ := Option.map_eq_some_iff.1 hx
    -- what is left is no call, no function and no statement with a list of values
    cases n with
    | expr e =>
      cases e with
      | call => exact (hcall _ _ _ _ rfl).elim
      | function => exact (hfunction _ rfl).elim
      | _ => rfl
    | stmt s =>
      cases s with
      | expr => exact (hstatement _ rfl).elim
      | localVars => exact (hlocal _ _ _ rfl).elim
      | ret => exact (hret _ _ rfl).elim
      | assign => exact (hassign _ _ _ rfl).elim
      | genericFor => exact (hfor _ _ _ _ rfl).elim
      | _ => rfl
    | _ => rfl

/-- The parts of a node are placed at the registers their positions give them. -/
lemma register_of_places {r i : ℕ} {n : Node Reference LocalId}
    {x : Place × Node Reference LocalId} (hx : (n.places r)[i]? = some x) :
    x.1.register = n.partRegister r i := congrArg Place.register (place_of_places hx)

/-- **A node is placed at the register of its address.** -/
theorem placement_register {a : List ℕ} {x y : Place × Node Reference LocalId}
    (h : placement.at? a x = some y) : y.1.register = x.2.registerAt a x.1.register := by
  induction a generalizing x with
  | nil =>
    obtain rfl := Option.some.inj h
    rfl
  | cons i a ih =>
    obtain ⟨c, hc, hy⟩ := Option.bind_eq_some_iff.1 h
    have hchild : x.2.children[i]? = some c.2 := by
      rw [← placement.map_snd_parts x.1 x.2, List.getElem?_map, hc, Option.map_some]
    rw [ih hy, Node.registerAt, hchild, register_of_places hc]
    rfl

/-- Going down without entering a function, registers only go up. -/
lemma register_le {a : List ℕ} {x y : Place × Node Reference LocalId}
    (h : placement.at? a x = some y)
    (hbody : ∀ b, b <+: a → ∀ f, x.2.at? b ≠ some (.expr (.function f))) :
    x.1.register ≤ y.1.register := by
  induction a generalizing x with
  | nil =>
    obtain rfl := Option.some.inj h
    exact le_rfl
  | cons i a ih =>
    obtain ⟨c, hc, hy⟩ := Option.bind_eq_some_iff.1 h
    have hchild : x.2.children[i]? = some c.2 := by
      rw [← placement.map_snd_parts x.1 x.2, List.getElem?_map, hc, Option.map_some]
    have hstep : x.1.register ≤ c.1.register := by
      rw [register_of_places hc, Node.partRegister.eq_def]
      split
      · split_ifs <;> omega
      · next f heq => exact absurd (congrArg some heq) (hbody [] List.nil_prefix f)
      · exact le_rfl
    refine hstep.trans (ih hy fun b hb f hf => ?_)
    refine hbody (i :: b) ((List.prefix_cons_inj i).2 hb) f ?_
    rw [Node.at?, hchild, Option.bind_some, hf]

namespace Program

variable (p : Program)

/-- The register of an address of a program. -/
def registerAt (a : List ℕ) : ℕ := (Node.block p.body).registerAt a 0

/-- A call at an address needs more registers than a frame has, or passes too many values. -/
def Overflows (a : List ℕ) (k : Call) : Prop :=
  p.registerAt a + k.passed > 255 ∨ k.passed ≥ 255

/-- **An address inside argument `i`** of the call at another one, with no function literal on the
way there. -/
def InArgument (a : List ℕ) (i : ℕ) (b : List ℕ) : Prop :=
  ∃ s, b = a ++ (i + 1) :: s ∧
    ∀ t, t <+: s → ∀ f, (Node.block p.body).at? (a ++ (i + 1) :: t) ≠ some (.expr (.function f))

variable {p} {a b : List ℕ} {k l : PlacedCall}

lemma register_of_mem_located (h : (a, k) ∈ p.located) : k.place.register = p.registerAt a := by
  obtain ⟨n, -, hn⟩ := p.mem_located.1 h
  exact placement_register hn

lemma overflows_iff (h : (a, k) ∈ p.located) : k.overflows = true ↔ p.Overflows a k.call := by
  rw [PlacedCall.overflows, register_of_mem_located h, Overflows, Bool.or_eq_true,
    decide_eq_true_eq, decide_eq_true_eq]
  rfl

/-- A call that is an argument is at the register of the argument. -/
lemma registerAt_argument (hk : (a, k) ∈ p.located) {i : ℕ} (hl : (a ++ [i + 1], l) ∈ p.located) :
    p.registerAt (a ++ [i + 1]) = p.registerAt a + 1 + k.call.receivers + i := by
  obtain ⟨n, hn, hat⟩ := p.mem_located.1 hk
  obtain ⟨m, -, hbt⟩ := p.mem_located.1 hl
  obtain ⟨z, hz, hpart⟩ := placement.at?_concat_eq_some.1 hbt
  obtain rfl := Option.some.inj (hz.symm.trans hat)
  have harg : l.place.register = Node.partRegister k.place.register (i + 1) n :=
    register_of_places hpart
  rw [← register_of_mem_located hl, harg, Node.call?_eq_some_iff.1 hn, Node.partRegister,
    if_neg i.succ_ne_zero, ← register_of_mem_located hk, Call.receivers]
  omega

/-- A call inside of an argument is at a register of the argument or behind it. -/
lemma registerAt_le_of_inArgument (hk : (a, k) ∈ p.located) (hl : (b, l) ∈ p.located) {i : ℕ}
    (hi : p.InArgument a i b) : p.registerAt a + 1 + k.call.receivers + i ≤ p.registerAt b := by
  obtain ⟨n, hn, hat⟩ := p.mem_located.1 hk
  obtain ⟨m, -, hbt⟩ := p.mem_located.1 hl
  obtain ⟨s, rfl, hbody⟩ := hi
  rw [← register_of_mem_located hk, ← register_of_mem_located hl]
  rw [placement.at?_append, hat, Option.bind_some, Inherited.at?] at hbt
  obtain ⟨c, hc, hs⟩ := Option.bind_eq_some_iff.1 hbt
  have hchild : n.children[i + 1]? = some c.2 := by
    rw [← placement.map_snd_parts k.place n, List.getElem?_map, hc, Option.map_some]
  have harg : k.place.register + 1 + k.call.receivers + i = c.1.register := by
    rw [register_of_places hc, Node.call?_eq_some_iff.1 hn, Node.partRegister, Call.receivers,
      if_neg i.succ_ne_zero]
    show _ = k.place.register + _ + (i + 1)
    omega
  refine harg.le.trans (register_le hs fun t ht f hf => hbody t ht f ?_)
  rw [Node.at?_append, placement.node_of_at? hat, Option.bind_some, Node.at?, hchild,
    Option.bind_some, hf]

end Program

/-! ## What is emitted -/

/-- **The registers a call puts its results into**: from its function on, one less than the operand
`C` says, and any number if it is zero. -/
def Instruction.Writes (i : Instruction) (r : ℕ) : Prop :=
  i.a.toNat ≤ r ∧ (i.c = 0 ∨ r + 1 < i.a.toNat + i.c.toNat)

/-- **What a compiled unit does with registers.** -/
structure CompiledUnit.KeepsRegisters (p : Program) (es : List EmittedCall) : Prop where
  /-- The function of a call is in the register of its position. -/
  function : ∀ e ∈ es, e.instruction.a.toNat = p.registerAt e.address
  /-- The operand `B` is one more than the number of values passed, or zero. -/
  passed : ∀ e ∈ es, e.instruction.b.toNat = if e.call.isOpen then 0 else e.call.passed + 1
  /-- The registers of the arguments and the number of values passed fit into a byte. -/
  fits : ∀ e ∈ es, e.call.passed + 1 ≤ 255 ∧ p.registerAt e.address ≤ 255 ∧
    ∀ i < e.call.args.length, p.registerAt e.address + 1 + e.call.receivers + i ≤ 255
  /-- A call inside an argument writes to the register of the argument or behind it. -/
  behind : ∀ e ∈ es, ∀ e' ∈ es, ∀ i, p.InArgument e.address i e'.address →
    ∀ r, e'.instruction.Writes r → p.registerAt e.address + 1 + e.call.receivers + i ≤ r
  /-- So it writes neither to the function, nor to the receiver, nor to an earlier argument. -/
  spared : ∀ e ∈ es, ∀ e' ∈ es, ∀ i, p.InArgument e.address i e'.address →
    ∀ r, p.registerAt e.address ≤ r → r < p.registerAt e.address + 1 + e.call.receivers + i →
      ¬e'.instruction.Writes r

/-- **Register discipline** of a compilation with a given result. -/
structure Program.RegisterDiscipline (p : Program) (result : Except CompileError CompiledUnit) :
    Prop where
  /-- It fails with an overflow if and only if some call overflows. -/
  overflow : (∃ line, result = .error (.registerOverflow line)) ↔
    ∃ a k, p.callAt? a = some k ∧ p.Overflows a k
  /-- It fails in no other way, and the line is that of the first call that overflows, where a call
  comes before the calls inside of it, and these come from left to right. -/
  first : ∀ e, result = .error e ↔ ∃ a k, p.callAt? a = some k ∧ p.Overflows a k ∧
    (∀ b l, p.callAt? b = some l → p.Overflows b l → a ≤ b) ∧ e = .registerOverflow k.pos.line
  /-- If it succeeds, the unit is made of the calls of the program and keeps their registers. -/
  emitted : ∀ u, result = .ok u → ∃ es, u.MadeOf p es ∧ CompiledUnit.KeepsRegisters p es

namespace PlacedCall

variable {k : PlacedCall}

lemma decode_callWord (k : PlacedCall) : Instruction.decode k.callWord =
    { op := OpCode.call.code
      a := UInt8.ofNat k.place.register
      b := if k.call.isOpen then 0 else UInt8.ofNat k.call.passed + 1
      c := k.place.want.operand } :=
  Instruction.decode_encode _

lemma bounds_of_not_overflows (h : k.overflows = false) :
    k.place.register + k.call.passed ≤ 255 ∧ k.call.passed < 255 := by
  simpa [overflows, Compiler.maxRegister] using h

lemma decode_callWord_a (h : k.overflows = false) :
    (Instruction.decode k.callWord).a.toNat = k.place.register := by
  obtain ⟨hreg, -⟩ := bounds_of_not_overflows h
  rw [decode_callWord, UInt8.toNat_ofNat']
  omega

lemma decode_callWord_b (h : k.overflows = false) :
    (Instruction.decode k.callWord).b.toNat =
      if k.call.isOpen then 0 else k.call.passed + 1 := by
  obtain ⟨-, hpassed⟩ := bounds_of_not_overflows h
  rw [decode_callWord]
  split_ifs
  · rfl
  · rw [UInt8.toNat_add, UInt8.toNat_ofNat', UInt8.toNat_one]
    omega

end PlacedCall

namespace Program

variable {p : Program}

/-- A unit none of whose calls overflows keeps registers. -/
lemma keepsRegisters_emissions (o : CompileOptions)
    (hfit : ∀ x ∈ p.located, x.2.overflows = false) :
    CompiledUnit.KeepsRegisters p (p.emissions o) := by
  have hbehind : ∀ e ∈ p.emissions o, ∀ e' ∈ p.emissions o, ∀ i,
      p.InArgument e.address i e'.address → ∀ r, e'.instruction.Writes r →
        p.registerAt e.address + 1 + e.call.receivers + i ≤ r := by
    rintro _ he _ he' i hi r ⟨hr, -⟩
    obtain ⟨⟨a, k⟩, hx, rfl⟩ := List.mem_map.1 he
    obtain ⟨⟨b, l⟩, hy, rfl⟩ := List.mem_map.1 he'
    have hle := registerAt_le_of_inArgument hx hy hi
    have hl : (Instruction.decode l.callWord).a.toNat = p.registerAt b := by
      rw [PlacedCall.decode_callWord_a (hfit _ hy), register_of_mem_located hy]
    exact hle.trans (hl.symm.le.trans hr)
  refine ⟨?_, ?_, ?_, hbehind, ?_⟩
  · intro e he
    obtain ⟨⟨a, k⟩, hx, rfl⟩ := List.mem_map.1 he
    exact (PlacedCall.decode_callWord_a (hfit _ hx)).trans (register_of_mem_located hx)
  · intro e he
    obtain ⟨⟨a, k⟩, hx, rfl⟩ := List.mem_map.1 he
    exact PlacedCall.decode_callWord_b (hfit _ hx)
  · intro e he
    obtain ⟨⟨a, k⟩, hx, rfl⟩ := List.mem_map.1 he
    obtain ⟨hreg, hpassed⟩ := PlacedCall.bounds_of_not_overflows (hfit _ hx)
    rw [register_of_mem_located hx] at hreg
    refine ⟨hpassed, Nat.le_of_add_right_le hreg, fun i hi => ?_⟩
    have hsum : k.call.passed = k.call.args.length + k.call.receivers := rfl
    simp only [emission] at hi hreg ⊢
    omega
  · intro e he e' he' i hi r _ hlt hw
    exact absurd (hbehind e he e' he' i hi r hw) (Nat.not_le.2 hlt)

/-- The first call that overflows, on the walk and by address. -/
lemma first_of_find? {a : List ℕ} {k : PlacedCall}
    (h : p.locatedOuterFirst.find? (·.2.overflows) = some (a, k)) :
    p.callAt? a = some k.call ∧ p.Overflows a k.call ∧
      ∀ b l, p.callAt? b = some l → p.Overflows b l → a ≤ b := by
  obtain ⟨hk, front, back, hsplit, hfront⟩ := List.find?_eq_some_iff_append.1 h
  have hmem : (a, k) ∈ p.located :=
    p.mem_locatedOuterFirst.1 (List.mem_of_find?_eq_some h)
  refine ⟨p.callAt?_eq_some_iff.2 ⟨_, hmem⟩, (overflows_iff hmem).1 hk, fun b l hl hover => ?_⟩
  obtain ⟨q, hq⟩ := p.callAt?_eq_some_iff.1 hl
  have hlq : PlacedCall.overflows ⟨q, l⟩ = true := (overflows_iff hq).2 hover
  have hback := p.pairwise_lt_locatedOuterFirst
  have hb := p.mem_locatedOuterFirst.2 hq
  rw [hsplit] at hback hb
  rcases List.mem_append.1 hb with hb | hb
  · have hno := hfront _ hb
    rw [hlq] at hno
    cases hno
  · rcases List.mem_cons.1 hb with heq | hb
    · rw [(Prod.mk.inj heq).1]
    · exact (List.rel_of_pairwise_cons (List.pairwise_append.1 hback).2.1 hb).le

/-- There is at most one first call that overflows. -/
lemma first_unique {a b : List ℕ} {k l : Call} (hk : p.callAt? a = some k)
    (hka : p.Overflows a k) (ha : ∀ b l, p.callAt? b = some l → p.Overflows b l → a ≤ b)
    (hl : p.callAt? b = some l) (hlb : p.Overflows b l)
    (hb : ∀ a k, p.callAt? a = some k → p.Overflows a k → b ≤ a) : k = l := by
  obtain rfl := le_antisymm (ha b l hl hlb) (hb a k hk hka)
  exact Option.some.inj (hk.symm.trans hl)

end Program

namespace Compiler

/-- **Register discipline.** Whatever the compiler did before, compiling a program fails if and only
if some call needs too many registers or passes too many values, where the register of a call is
given by its position; it then reports the line of the first such call. If it succeeds, all
registers and numbers of arguments fit into a byte, and a call inside an argument leaves the
registers before that argument alone.

**Proof sketch.** The unit is made of the placed calls, and a call is placed at the register that
is handed down to it. Each step down hands on a register as the position says, so by induction on
the path the register is that of the address. On a path that enters no function literal registers
only go up. The first overflow is looked for before the parts of a call, and that walk goes up the
order of addresses. -/
theorem compileProgram_registers (p : Program) (c : Compiler) :
    p.RegisterDiscipline ((compileProgram p).outcome c).1 := by
  have hresult := (compileProgram_outcome p c).1
  have hline : p.overflowLine? =
      (p.locatedOuterFirst.find? (·.2.overflows)).map (·.2.call.pos.line) := by
    rw [Program.overflowLine?, ← p.map_snd_locatedOuterFirst, List.find?_map, Option.map_map]
    rfl
  rcases hfind : p.locatedOuterFirst.find? (·.2.overflows) with _ | ⟨a, k⟩
  · rw [hfind] at hline
    rw [hline] at hresult
    simp only [Option.map_none] at hresult
    have hfit : ∀ x ∈ p.located, x.2.overflows = false := fun x hx => by
      simpa using List.find?_eq_none.1 hfind x (p.mem_locatedOuterFirst.2 hx)
    have hnone : ∀ a k, p.callAt? a = some k → ¬p.Overflows a k := by
      intro a k hk hover
      obtain ⟨q, hq⟩ := p.callAt?_eq_some_iff.1 hk
      exact absurd ((Program.overflows_iff hq).2 hover) (by simp [hfit _ hq])
    rw [hresult]
    refine ⟨⟨?_, ?_⟩, fun e => ⟨?_, ?_⟩, ?_⟩
    · rintro ⟨_, h⟩
      cases h
    · rintro ⟨a, k, hk, hover⟩
      exact absurd hover (hnone a k hk)
    · intro h
      cases h
    · rintro ⟨a, k, hk, hover, -⟩
      exact absurd hover (hnone a k hk)
    · intro u hu
      obtain rfl := Except.ok.inj hu
      exact ⟨_, p.unit_madeOf c.options, Program.keepsRegisters_emissions c.options hfit⟩
  · rw [hfind] at hline
    rw [hline] at hresult
    simp only [Option.map_some] at hresult
    obtain ⟨hk, hover, hfirst⟩ := Program.first_of_find? hfind
    rw [hresult]
    refine ⟨⟨fun _ => ⟨a, k.call, hk, hover⟩, fun _ => ⟨_, rfl⟩⟩, ?_, fun u hu => by cases hu⟩
    intro e
    constructor
    · intro h
      exact ⟨a, k.call, hk, hover, hfirst, (Except.error.inj h).symm⟩
    · rintro ⟨b, l, hl, hlb, hb, rfl⟩
      rw [Program.first_unique hk hover hfirst hl hlb hb]

end Compiler

end ScriptCore
