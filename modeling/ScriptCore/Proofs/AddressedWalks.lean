import ScriptCore.Proofs.Addresses

set_option relaxedAutoImplicit false
set_option autoImplicit false

/-!
# Attributes by address

What a rule hands down to a node depends on the address of the node alone. This file reads it off
the path from the root, and ties it to the walks: a walk that carries addresses along meets each
address with what is handed down to it.

## Main definitions

* `ScriptCore.Inherited.at?` — the node at an address with what is handed down to it.
* `ScriptCore.Inherited.addressed` — a rule that hands addresses down as well.
* `ScriptCore.Inherited.Covers` — a rule that hands down what another one does, and more.

## Main results

* `ScriptCore.Inherited.mem_postorder_addressed` — what a walk with addresses meets.
* `ScriptCore.Inherited.pairwise_lt_preorder` — a walk before the parts goes up the lexicographic
  order of addresses.
* `ScriptCore.Before.adjacent` — neighbours in a list in the order of a walk behind the parts.
-/

namespace ScriptCore

variable {ρ β A B : Type}

/-! ## The order of a walk behind the parts -/

namespace Before

@[simp]
lemma not_nil (a : List ℕ) : ¬Before [] a := by
  intro h
  generalize hb : ([] : List ℕ) = b at h
  cases h <;> simp at hb

@[simp]
lemma nil_iff (a : List ℕ) : Before a [] ↔ a ≠ [] := by
  refine ⟨fun h heq => not_nil [] (heq ▸ h), fun h => ?_⟩
  obtain ⟨i, b, rfl⟩ := List.exists_cons_of_ne_nil h
  exact .inside [] i b

@[simp]
lemma cons_iff (i j : ℕ) (a b : List ℕ) :
    Before (i :: a) (j :: b) ↔ i < j ∨ i = j ∧ Before a b := by
  constructor
  · intro h
    generalize hx : i :: a = x, hy : j :: b = y at h
    cases h with
    | inside c k d =>
      subst hy
      obtain ⟨rfl, rfl⟩ := List.cons.inj hx
      exact .inr ⟨rfl, .inside b k d⟩
    | @left c k l hkl d d' =>
      rcases c with _ | ⟨m, c⟩
      · obtain ⟨rfl, -⟩ := List.cons.inj hx
        obtain ⟨rfl, -⟩ := List.cons.inj hy
        exact .inl hkl
      · obtain ⟨rfl, rfl⟩ := List.cons.inj hx
        obtain ⟨rfl, rfl⟩ := List.cons.inj hy
        exact .inr ⟨rfl, .left c hkl d d'⟩
  · rintro (hij | ⟨rfl, h⟩)
    · exact .left [] hij a b
    · cases h with
      | inside _ k d => exact .inside (i :: b) k d
      | left c hkl d d' => exact .left (i :: c) hkl d d'

/-- Of two addresses only one comes before the other. -/
lemma asymm {a b : List ℕ} (h : Before a b) : ¬Before b a := by
  induction a generalizing b with
  | nil => exact absurd h (not_nil b)
  | cons i a ih =>
    cases b with
    | nil => exact not_nil _
    | cons j b =>
      rw [cons_iff] at h ⊢
      rintro (hji | ⟨rfl, hba⟩)
      · rcases h with hij | ⟨rfl, -⟩
        · omega
        · omega
      · rcases h with hij | ⟨-, hab⟩
        · omega
        · exact ih hab hba

/-- What comes between a part of a node and the node lies in the parts further to the right. -/
lemma between {a b : List ℕ} {n : ℕ} (hnb : Before (a ++ [n]) b) (hba : Before b a) :
    ∃ j c, b = a ++ j :: c ∧ n < j := by
  induction a generalizing b with
  | nil =>
    obtain ⟨j, c, rfl⟩ := List.exists_cons_of_ne_nil ((nil_iff b).1 hba)
    rw [List.nil_append, cons_iff] at hnb
    rcases hnb with h | ⟨-, h⟩
    · exact ⟨j, c, rfl, h⟩
    · exact absurd h (not_nil c)
  | cons i a ih =>
    cases b with
    | nil => exact absurd hba (not_nil _)
    | cons j b =>
      rw [List.cons_append, cons_iff] at hnb
      rw [cons_iff] at hba
      rcases hnb with hij | ⟨rfl, hnb⟩
      · rcases hba with hji | ⟨rfl, -⟩ <;> omega
      · rcases hba with hji | ⟨-, hba⟩
        · omega
        · obtain ⟨k, c, rfl, hk⟩ := ih hnb hba
          exact ⟨k, c, rfl, hk⟩

/-- **Neighbours** in a list in order: nothing in the list comes between them. -/
lemma adjacent {γ : Type} {f : γ → List ℕ} {l : List γ}
    (hl : l.Pairwise fun x y => Before (f x) (f y)) {x y : γ} (hx : x ∈ l) (hy : y ∈ l)
    (hxy : Before (f x) (f y)) (hno : ∀ z ∈ l, Before (f x) (f z) → ¬Before (f z) (f y)) :
    ∃ front back, l = front ++ x :: y :: back := by
  obtain ⟨front, back, rfl⟩ := List.append_of_mem hx
  rw [List.pairwise_append, List.pairwise_cons] at hl
  obtain ⟨-, ⟨hback, hl⟩, hfront⟩ := hl
  have hyback : y ∈ back := by
    rcases List.mem_append.1 hy with h | h
    · exact absurd (hfront y h x List.mem_cons_self) hxy.asymm
    · rcases List.mem_cons.1 h with rfl | h
      · exact absurd hxy (irrefl _)
      · exact h
  rcases back with _ | ⟨z, back⟩
  · cases hyback
  · rcases List.mem_cons.1 hyback with rfl | h
    · exact ⟨front, back, rfl⟩
    · refine absurd ((List.pairwise_cons.1 hl).1 y h) (hno z (by simp) ?_)
      exact hback z List.mem_cons_self

end Before

/-! ## The order of a walk before the parts -/

/-- An address comes before those inside of it. -/
lemma lt_inside (a : List ℕ) (i : ℕ) (b : List ℕ) : a < a ++ i :: b := by
  induction a with
  | nil => exact List.Lex.nil
  | cons k a ih => exact List.Lex.cons ih

/-- An address comes before those that part from it to the right. -/
lemma lt_right (a : List ℕ) {i j : ℕ} (h : i < j) (b b' : List ℕ) :
    a ++ i :: b < a ++ j :: b' := by
  induction a with
  | nil => exact List.Lex.rel h
  | cons k a ih => exact List.Lex.cons ih

/-! ## Nodes by address -/

namespace Node

/-- Going down a path and then further on. -/
lemma at?_append (a b : List ℕ) (n : Node ρ β) :
    n.at? (a ++ b) = (n.at? a).bind fun m => m.at? b := by
  induction a generalizing n with
  | nil => rfl
  | cons i a ih =>
    rw [List.cons_append, at?, at?, Option.bind_assoc]
    exact Option.bind_congr fun c _ => ih c

/-- What is found at an address with one more step is a part of what is found before. -/
lemma at?_concat_eq_some {a : List ℕ} {i : ℕ} {n m : Node ρ β} :
    n.at? (a ++ [i]) = some m ↔ ∃ c, n.at? a = some c ∧ c.children[i]? = some m := by
  simp only [at?_append, Option.bind_eq_some_iff, at?, Option.some.injEq, exists_eq_right]

end Node

namespace Inherited

variable (I : Inherited ρ β A) {J : Inherited ρ β B}

/-! ## What is handed down to an address -/

/-- The node at an address with what is handed down to it. -/
def at? : List ℕ → A × Node ρ β → Option (A × Node ρ β)
  | [], x => some x
  | i :: a, x => (I.parts x.1 x.2)[i]?.bind (at? a)

/-- The nodes at addresses do not depend on what is handed down. -/
lemma map_snd_at? (a : List ℕ) (x : A × Node ρ β) :
    (I.at? a x).map Prod.snd = x.2.at? a := by
  induction a generalizing x with
  | nil => rfl
  | cons i a ih =>
    rw [at?, Node.at?, ← I.map_snd_parts x.1 x.2, List.getElem?_map, Option.map_bind,
      Option.bind_map]
    exact Option.bind_congr fun c _ => ih c

lemma node_of_at? {a : List ℕ} {x y : A × Node ρ β} (h : I.at? a x = some y) :
    x.2.at? a = some y.2 := by
  rw [← I.map_snd_at?, h, Option.map_some]

/-- Something is handed down to every node. -/
lemma exists_at? {a : List ℕ} {x : A × Node ρ β} {m : Node ρ β} (h : x.2.at? a = some m) :
    ∃ q, I.at? a x = some (q, m) := by
  rw [← I.map_snd_at?] at h
  obtain ⟨⟨q, _⟩, hq, rfl⟩ := Option.map_eq_some_iff.1 h
  exact ⟨q, hq⟩

lemma at?_append (a b : List ℕ) (x : A × Node ρ β) :
    I.at? (a ++ b) x = (I.at? a x).bind (I.at? b) := by
  induction a generalizing x with
  | nil => rfl
  | cons i a ih =>
    rw [List.cons_append, at?, at?, Option.bind_assoc]
    exact Option.bind_congr fun c _ => ih c

/-- What is handed down one step further is told by the rule. -/
lemma at?_concat_eq_some {a : List ℕ} {i : ℕ} {x y : A × Node ρ β} :
    I.at? (a ++ [i]) x = some y ↔ ∃ z, I.at? a x = some z ∧ (I.parts z.1 z.2)[i]? = some y := by
  simp only [at?_append, Option.bind_eq_some_iff, at?, Option.some.injEq, exists_eq_right]

/-! ## Walks in both orders -/

/-- Both walks meet the same. -/
lemma postorder_perm_preorder (a : A) (n : Node ρ β) :
    (I.postorder a n).Perm (I.preorder a n) := by
  induction n using Node.induction generalizing a with
  | step n ih =>
    rw [postorder_eq, preorder_eq]
    have hparts : (I.postorders (I.parts a n)).Perm (I.preorders (I.parts a n)) :=
      List.Perm.flatMap_left _ fun c hc => ih c.2 (mem_children hc) c.1
    exact (hparts.append_right _).trans (List.perm_append_singleton _ _)

/-- **A rule hands down what another one does, and more**: `f` forgets the rest. -/
def Covers (I : Inherited ρ β A) (J : Inherited ρ β B) (f : A → B) : Prop :=
  ∀ a n, (I.parts a n).map (Prod.map f id) = J.parts (f a) n

namespace Covers

variable {I} {f : A → B} (h : I.Covers J f)
include h

lemma map_preorder (a : A) (n : Node ρ β) :
    (I.preorder a n).map (Prod.map f id) = J.preorder (f a) n := by
  induction n using Node.induction generalizing a with
  | step n ih =>
    rw [preorder_eq, preorder_eq, List.map_cons, preorders, List.map_flatMap, ← h a n, preorders,
      List.flatMap_map]
    exact congrArg _ (List.flatMap_congr fun c hc => ih c.2 (mem_children hc) c.1)

lemma map_postorder (a : A) (n : Node ρ β) :
    (I.postorder a n).map (Prod.map f id) = J.postorder (f a) n := by
  induction n using Node.induction generalizing a with
  | step n ih =>
    rw [postorder_eq, postorder_eq, List.map_append, postorders, List.map_flatMap, ← h a n,
      postorders, List.flatMap_map]
    exact congrArg (· ++ _) (List.flatMap_congr fun c hc => ih c.2 (mem_children hc) c.1)

end Covers

/-! ## Walks with addresses -/

/-- The rule that hands addresses down as well. -/
def addressed : Inherited ρ β (List ℕ × A) where
  parts x n := (I.parts x.2 n).zipIdx.map fun c => ((x.1 ++ [c.2], c.1.1), c.1.2)
  map_snd_parts x n := by
    rw [List.map_map, ← I.map_snd_parts x.2 n]
    conv_rhs => rw [← List.zipIdx_map_fst 0 (I.parts x.2 n), List.map_map]
    rfl

lemma addressed_covers : I.addressed.Covers I Prod.snd := by
  intro x n
  show List.map _ (List.map _ _) = _
  rw [List.map_map]
  exact List.zipIdx_map_fst 0 _

lemma addressed_covers_addressing : I.addressed.Covers addressing Prod.fst := by
  intro x n
  show List.map _ (List.map _ _) = List.map _ _
  rw [List.map_map, ← I.map_snd_parts x.2 n, List.zipIdx_map, List.map_map]
  rfl

lemma mem_parts_addressed {x : List ℕ × A} {n : Node ρ β} {y : (List ℕ × A) × Node ρ β} :
    y ∈ I.addressed.parts x n ↔
      ∃ i, (I.parts x.2 n)[i]? = some (y.1.2, y.2) ∧ y.1.1 = x.1 ++ [i] := by
  constructor
  · intro h
    obtain ⟨c, hc, rfl⟩ := List.mem_map.1 h
    exact ⟨c.2, List.mem_zipIdx_iff_getElem?.1 hc, rfl⟩
  · obtain ⟨⟨b, q⟩, m⟩ := y
    rintro ⟨i, hi, rfl⟩
    exact List.mem_map.2 ⟨((q, m), i), List.mem_zipIdx_iff_getElem?.2 hi, rfl⟩

/-- **A walk with addresses** meets each address of the tree with what is handed down to it. -/
theorem mem_postorder_addressed {a b : List ℕ} {p q : A} {n m : Node ρ β} :
    ((b, q), m) ∈ I.addressed.postorder (a, p) n ↔
      ∃ s, b = a ++ s ∧ I.at? s (p, n) = some (q, m) := by
  induction n using Node.induction generalizing a p with
  | step n ih =>
    rw [postorder_eq, List.mem_append, List.mem_singleton, postorders, List.mem_flatMap]
    constructor
    · rintro (⟨⟨⟨_, p'⟩, c⟩, hx, hm⟩ | h)
      · obtain ⟨i, hi, rfl⟩ := I.mem_parts_addressed.1 hx
        obtain ⟨s, rfl, hs⟩ := (ih c (mem_children hx)).1 hm
        exact ⟨i :: s, by simp, by rw [at?, hi, Option.bind_some, hs]⟩
      · obtain ⟨hab, rfl⟩ := Prod.mk.inj h
        obtain ⟨rfl, rfl⟩ := Prod.mk.inj hab
        exact ⟨[], by simp, rfl⟩
    · rintro ⟨_ | ⟨i, s⟩, rfl, hs⟩
      · right
        obtain ⟨rfl, rfl⟩ := Prod.mk.inj (Option.some.inj hs)
        rw [List.append_nil]
      · left
        rw [at?] at hs
        obtain ⟨c, hc, hs⟩ := Option.bind_eq_some_iff.1 hs
        have hmem : ((a ++ [i], c.1), c.2) ∈ I.addressed.parts (a, p) n :=
          I.mem_parts_addressed.2 ⟨i, hc, rfl⟩
        exact ⟨_, hmem, (ih c.2 (mem_children (I := I.addressed) hmem)).2 ⟨s, by simp, hs⟩⟩

lemma mem_preorder_addressed {a b : List ℕ} {p q : A} {n m : Node ρ β} :
    ((b, q), m) ∈ I.addressed.preorder (a, p) n ↔
      ∃ s, b = a ++ s ∧ I.at? s (p, n) = some (q, m) := by
  rw [← (I.addressed.postorder_perm_preorder (a, p) n).mem_iff, mem_postorder_addressed]

/-- A walk with addresses behind the parts meets them in order. -/
lemma pairwise_before_postorder (a : List ℕ) (p : A) (n : Node ρ β) :
    (I.addressed.postorder (a, p) n).Pairwise fun x y => Before x.1.1 y.1.1 := by
  have h := ScriptCore.pairwise_before_postorder a n
  rw [← I.addressed_covers_addressing.map_postorder (a, p) n, List.pairwise_map] at h
  exact h

/-- **A walk before the parts goes up the order of addresses.** -/
theorem pairwise_lt_preorder (a : List ℕ) (p : A) (n : Node ρ β) :
    (I.addressed.preorder (a, p) n).Pairwise fun x y => x.1.1 < y.1.1 := by
  induction n using Node.induction generalizing a p with
  | step n ih =>
    have hindices : (I.parts p n).zipIdx.Pairwise fun c c' => c.2 < c'.2 :=
      List.pairwise_iff_getElem.2 fun i j hi hj hij => by simpa using hij
    have hparts : (I.addressed.parts (a, p) n).Pairwise fun x y =>
        ∃ i j, i < j ∧ x.1.1 = a ++ [i] ∧ y.1.1 = a ++ [j] :=
      List.pairwise_map.2 (hindices.imp fun {c c'} h => ⟨c.2, c'.2, h, rfl, rfl⟩)
    rw [preorder_eq, List.pairwise_cons, preorders, List.pairwise_flatMap]
    refine ⟨?_, fun x hx => ih x.2 (mem_children hx) x.1.1 x.1.2, hparts.imp ?_⟩
    · rintro ⟨⟨b, q⟩, m⟩ hb
      obtain ⟨x, hx, hb⟩ := List.mem_flatMap.1 hb
      obtain ⟨i, -, hi⟩ := I.mem_parts_addressed.1 hx
      obtain ⟨s, rfl, -⟩ := I.mem_preorder_addressed.1 hb
      simpa [hi] using lt_inside a i s
    · rintro x y ⟨i, j, hij, hx, hy⟩ ⟨⟨b, q⟩, m⟩ hb ⟨⟨b', q'⟩, m'⟩ hb'
      obtain ⟨s, rfl, -⟩ := I.mem_preorder_addressed.1 hb
      obtain ⟨s', rfl, -⟩ := I.mem_preorder_addressed.1 hb'
      simpa [hx, hy] using lt_right a hij s s'

end Inherited

end ScriptCore
