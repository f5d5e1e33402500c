import ScriptCore.Proofs.Traversal

set_option relaxedAutoImplicit false
set_option autoImplicit false

/-!
# Addresses in trees

Equal nodes may stand at several places of a tree, so a statement that counts them speaks of their
addresses. An address says which part to take at each step down from the root.

## Main definitions

* `ScriptCore.Node.at?` — the node at an address.
* `ScriptCore.Before` — the order of addresses in which a node stands behind its parts, and parts
  stand from left to right.
* `ScriptCore.addressing` — the rule that hands addresses down.

## Main results

* `ScriptCore.mem_postorder_addressing` — the walk meets each address of the tree with its node.
* `ScriptCore.pairwise_before_postorder` — and it meets them in order.
-/

namespace ScriptCore

variable {ρ β : Type}

/-- The node at an address. -/
def Node.at? : List ℕ → Node ρ β → Option (Node ρ β)
  | [], n => some n
  | i :: a, n => n.children[i]?.bind (at? a)

/-! ## The order of addresses -/

/-- **One address comes before another**: it lies inside of the other one, or the two part at a node
and it goes on further to the left. -/
inductive Before : List ℕ → List ℕ → Prop
  | inside (a : List ℕ) (i : ℕ) (b : List ℕ) : Before (a ++ i :: b) a
  | left (a : List ℕ) {i j : ℕ} (h : i < j) (b b' : List ℕ) : Before (a ++ i :: b) (a ++ j :: b')

/-- No address comes before itself. -/
lemma Before.irrefl (a : List ℕ) : ¬Before a a := by
  have hne {a b : List ℕ} (h : Before a b) : a ≠ b := by
    cases h with
    | inside a i b => simp
    | left a h b b' =>
      intro heq
      simp only [List.append_cancel_left_eq, List.cons.injEq] at heq
      omega
  exact fun h => hne h rfl

/-- Of two different addresses one comes before the other. -/
theorem Before.total {a b : List ℕ} (h : a ≠ b) : Before a b ∨ Before b a := by
  induction a generalizing b with
  | nil =>
    obtain ⟨i, b, rfl⟩ := List.exists_cons_of_ne_nil h.symm
    exact .inr (.inside [] i b)
  | cons i a ih =>
    cases b with
    | nil => exact .inl (.inside [] i a)
    | cons j b =>
      rcases Nat.lt_trichotomy i j with hij | rfl | hij
      · exact .inl (.left [] hij a b)
      · have hlift {a b : List ℕ} (h : Before a b) : Before (i :: a) (i :: b) := by
          cases h with
          | inside _ k b => exact .inside (i :: _) k b
          | left a h b b' => exact .left (i :: a) h b b'
        exact (ih fun heq => h (heq ▸ rfl)).imp hlift hlift
      · exact .inr (.left [] hij b a)

/-! ## Walking with addresses -/

/-- The rule that hands addresses down. -/
def addressing : Inherited ρ β (List ℕ) where
  parts a n := n.children.zipIdx.map fun c => (a ++ [c.2], c.1)
  map_snd_parts a n := by
    rw [List.map_map]
    exact List.zipIdx_map_fst 0 _

lemma mem_parts_addressing {a : List ℕ} {n : Node ρ β} {x : List ℕ × Node ρ β} :
    x ∈ addressing.parts a n ↔ ∃ i, n.children[i]? = some x.2 ∧ x.1 = a ++ [i] := by
  constructor
  · intro h
    obtain ⟨c, hc, rfl⟩ := List.mem_map.1 h
    exact ⟨c.2, List.mem_zipIdx_iff_getElem?.1 hc, rfl⟩
  · rintro ⟨i, hi, ha⟩
    exact List.mem_map.2 ⟨(x.2, i), List.mem_zipIdx_iff_getElem?.2 hi, Prod.ext ha.symm rfl⟩

/-- **The walk meets each address of a tree with its node.** -/
theorem mem_postorder_addressing {a b : List ℕ} {n m : Node ρ β} :
    (b, m) ∈ addressing.postorder a n ↔ ∃ q, b = a ++ q ∧ n.at? q = some m := by
  induction n using Node.induction generalizing a with
  | step n ih =>
    rw [Inherited.postorder_eq, List.mem_append, List.mem_singleton, Inherited.postorders,
      List.mem_flatMap]
    constructor
    · rintro (⟨x, hx, hm⟩ | h)
      · obtain ⟨i, hi, ha⟩ := mem_parts_addressing.1 hx
        obtain ⟨q, rfl, hq⟩ := (ih x.2 (Inherited.mem_children hx)).1 hm
        exact ⟨i :: q, by simp [ha], by rw [Node.at?, hi, Option.bind_some, hq]⟩
      · obtain ⟨rfl, rfl⟩ := Prod.mk.inj h
        exact ⟨[], by simp, rfl⟩
    · rintro ⟨_ | ⟨i, q⟩, rfl, hq⟩
      · right
        rw [List.append_nil, Option.some.inj hq]
      · left
        rw [Node.at?] at hq
        obtain ⟨c, hc, hq⟩ := Option.bind_eq_some_iff.1 hq
        have hmem : (a ++ [i], c) ∈ addressing.parts a n := mem_parts_addressing.2 ⟨i, hc, rfl⟩
        exact ⟨_, hmem, (ih c (Inherited.mem_children hmem)).2 ⟨q, by simp, hq⟩⟩

/-- **The walk meets the addresses in order.**

**Proof sketch.** Induction over the tree. What is met in a part has an address that goes on from
that of the part: so it comes before the node, and before what is met in a part further to the
right. -/
theorem pairwise_before_postorder (a : List ℕ) (n : Node ρ β) :
    (addressing.postorder a n).Pairwise fun x y => Before x.1 y.1 := by
  induction n using Node.induction generalizing a with
  | step n ih =>
    have hindices : n.children.zipIdx.Pairwise fun c c' => c.2 < c'.2 :=
      List.pairwise_iff_getElem.2 fun i j hi hj hij => by simpa using hij
    have hparts : (addressing.parts a n).Pairwise fun x y =>
        ∃ i j, i < j ∧ x.1 = a ++ [i] ∧ y.1 = a ++ [j] :=
      List.pairwise_map.2 (hindices.imp fun {c c'} h => ⟨c.2, c'.2, h, rfl, rfl⟩)
    rw [Inherited.postorder_eq, List.pairwise_append, Inherited.postorders, List.pairwise_flatMap]
    refine ⟨⟨fun x hx => ih x.2 (Inherited.mem_children hx) x.1, hparts.imp ?_⟩,
      List.pairwise_singleton _ _, ?_⟩
    · rintro x y ⟨i, j, hij, hx, hy⟩ ⟨b, m⟩ hb ⟨b', m'⟩ hb'
      obtain ⟨q, rfl, -⟩ := mem_postorder_addressing.1 hb
      obtain ⟨q', rfl, -⟩ := mem_postorder_addressing.1 hb'
      simpa [hx, hy] using Before.left a hij q q'
    · rintro ⟨b, m⟩ hb z hz
      obtain ⟨x, hx, hb⟩ := List.mem_flatMap.1 hb
      obtain ⟨i, -, hi⟩ := mem_parts_addressing.1 hx
      obtain ⟨q, rfl, -⟩ := mem_postorder_addressing.1 hb
      rw [List.mem_singleton.1 hz]
      simpa [hi] using Before.inside a i q

end ScriptCore
