import Mathlib
import ScriptCore.Source.Node

set_option relaxedAutoImplicit false
set_option autoImplicit false

/-!
# Walks over trees

Statements about programs speak of their nodes in some order, each together with what its place
in the tree says about it: the register it may use, the names it sees. Such an attribute is handed
down from a node to its parts. One rule for a single step gives a walk over the whole tree, in
which every node of the tree is met once.

## Main definitions

* `ScriptCore.Node.postorder` — all nodes of a tree, each behind its parts.
* `ScriptCore.Inherited` — a rule that hands an attribute down to the parts of a node.
* `ScriptCore.Inherited.preorder`, `ScriptCore.Inherited.postorder` — the walks it gives.

## Main results

* `ScriptCore.Node.induction` — induction over the parts of nodes.
* `ScriptCore.Node.postorder_perm_nodes` — both orders list the same nodes.
* `ScriptCore.Inherited.map_snd_preorder`, `ScriptCore.Inherited.map_snd_postorder` — a walk meets
  the nodes of the tree.
-/

namespace ScriptCore

variable {ρ β A : Type}

/-! ## Nodes in order -/

namespace Node

/-- Induction over trees: a node may assume the statement for its parts. -/
theorem induction {P : Node ρ β → Prop} (step : ∀ n, (∀ c ∈ n.children, P c) → P n)
    (n : Node ρ β) : P n :=
  step n fun c _ => induction step c
termination_by sizeOf n
decreasing_by exact sizeOf_lt_of_mem_children ‹_›

/-- The depths of a listing do not change its nodes. -/
lemma map_snd_preorder (n : Node ρ β) : ∀ d, (n.preorder d).map Prod.snd = n.nodes := by
  induction n using Node.induction with
  | step n ih =>
    intro d
    have hparts : ∀ d', (n.children.flatMap (preorder d')).map Prod.snd =
        n.children.flatMap nodes := by
      intro d'
      rw [List.map_flatMap]
      exact List.flatMap_congr fun c hc => ih c hc d'
    rw [nodes, preorder_eq, preorder_eq 0, List.map_cons, List.map_cons, hparts, hparts]

/-- The nodes of a tree are its root and the nodes of its parts. -/
theorem nodes_eq (n : Node ρ β) : n.nodes = n :: n.children.flatMap nodes := by
  have h : (n.children.flatMap (preorder 1)).map Prod.snd = n.children.flatMap nodes := by
    rw [List.map_flatMap]
    exact List.flatMap_congr fun c _ => map_snd_preorder c 1
  rw [← h]
  conv_lhs => rw [nodes, preorder_eq]
  rfl

/-- All nodes of a tree, each behind its parts. -/
def postorder (n : Node ρ β) : List (Node ρ β) :=
  (n.children.attach.flatMap fun c => postorder c.1) ++ [n]
termination_by sizeOf n
decreasing_by exact sizeOf_lt_of_mem_children c.2

theorem postorder_eq (n : Node ρ β) : n.postorder = n.children.flatMap postorder ++ [n] := by
  rw [postorder]
  simp [List.flatMap_subtype]

/-- Both orders list the same nodes. -/
theorem postorder_perm_nodes (n : Node ρ β) : n.postorder.Perm n.nodes := by
  induction n using Node.induction with
  | step n ih =>
    rw [postorder_eq, nodes_eq]
    have hparts : (n.children.flatMap postorder).Perm (n.children.flatMap nodes) :=
      List.Perm.flatMap_left _ ih
    exact (hparts.append_right [n]).trans (List.perm_append_singleton _ _)

lemma mem_nodes_self (n : Node ρ β) : n ∈ n.nodes := by
  rw [nodes_eq]; exact List.mem_cons_self

/-- The parts of a node of a tree belong to the tree. -/
lemma mem_nodes_of_mem_children {r n c : Node ρ β} (hn : n ∈ r.nodes) (hc : c ∈ n.children) :
    c ∈ r.nodes := by
  induction r using Node.induction with
  | step r ih =>
    rw [nodes_eq, List.mem_cons] at hn ⊢
    rcases hn with rfl | hn
    · exact .inr (List.mem_flatMap.2 ⟨c, hc, mem_nodes_self c⟩)
    · obtain ⟨s, hs, hns⟩ := List.mem_flatMap.1 hn
      exact .inr (List.mem_flatMap.2 ⟨s, hs, ih s hs hns⟩)

end Node

/-! ## Attributes handed down -/

/-- A rule that hands an attribute down: it gives each part of a node its own attribute. -/
structure Inherited (ρ β A : Type) where
  parts : A → Node ρ β → List (A × Node ρ β)
  map_snd_parts : ∀ a n, (parts a n).map Prod.snd = n.children

namespace Inherited

variable (I : Inherited ρ β A)

lemma mem_children {I : Inherited ρ β A} {a : A} {n : Node ρ β} {c : A × Node ρ β}
    (h : c ∈ I.parts a n) : c.2 ∈ n.children := by
  rw [← I.map_snd_parts a n]
  exact List.mem_map_of_mem h

/-- All nodes of a tree with their attributes, each before its parts. -/
def preorder (a : A) (n : Node ρ β) : List (A × Node ρ β) :=
  (a, n) :: (I.parts a n).attach.flatMap fun c => preorder c.1.1 c.1.2
termination_by sizeOf n
decreasing_by exact Node.sizeOf_lt_of_mem_children (mem_children c.2)

/-- All nodes of a tree with their attributes, each behind its parts. -/
def postorder (a : A) (n : Node ρ β) : List (A × Node ρ β) :=
  ((I.parts a n).attach.flatMap fun c => postorder c.1.1 c.1.2) ++ [(a, n)]
termination_by sizeOf n
decreasing_by exact Node.sizeOf_lt_of_mem_children (mem_children c.2)

/-- The walks over several trees, one behind the other. -/
def preorders (ps : List (A × Node ρ β)) : List (A × Node ρ β) :=
  ps.flatMap fun c => I.preorder c.1 c.2

/-- The walks over several trees, one behind the other. -/
def postorders (ps : List (A × Node ρ β)) : List (A × Node ρ β) :=
  ps.flatMap fun c => I.postorder c.1 c.2

theorem preorder_eq (a : A) (n : Node ρ β) :
    I.preorder a n = (a, n) :: I.preorders (I.parts a n) := by
  rw [preorder, preorders]
  conv_rhs => rw [← List.attach_map_subtype_val (I.parts a n), List.flatMap_map]

theorem postorder_eq (a : A) (n : Node ρ β) :
    I.postorder a n = I.postorders (I.parts a n) ++ [(a, n)] := by
  rw [postorder, postorders]
  conv_rhs => rw [← List.attach_map_subtype_val (I.parts a n), List.flatMap_map]

@[simp]
lemma preorders_nil : I.preorders [] = [] := rfl

@[simp]
lemma postorders_nil : I.postorders [] = [] := rfl

@[simp]
lemma preorders_append (ps qs : List (A × Node ρ β)) :
    I.preorders (ps ++ qs) = I.preorders ps ++ I.preorders qs :=
  List.flatMap_append

@[simp]
lemma postorders_append (ps qs : List (A × Node ρ β)) :
    I.postorders (ps ++ qs) = I.postorders ps ++ I.postorders qs :=
  List.flatMap_append

@[simp]
lemma preorders_cons (p : A × Node ρ β) (ps : List (A × Node ρ β)) :
    I.preorders (p :: ps) = I.preorder p.1 p.2 ++ I.preorders ps := rfl

@[simp]
lemma postorders_cons (p : A × Node ρ β) (ps : List (A × Node ρ β)) :
    I.postorders (p :: ps) = I.postorder p.1 p.2 ++ I.postorders ps := rfl

lemma mem_preorder_self (a : A) (n : Node ρ β) : (a, n) ∈ I.preorder a n := by
  rw [preorder_eq]; exact List.mem_cons_self

/-- A walk that meets a node meets its parts with what is handed down to them. -/
lemma mem_preorder_of_mem_parts {a : A} {n : Node ρ β} {x y : A × Node ρ β}
    (hx : x ∈ I.preorder a n) (hy : y ∈ I.parts x.1 x.2) : y ∈ I.preorder a n := by
  induction n using Node.induction generalizing a with
  | step n ih =>
    rw [preorder_eq, List.mem_cons] at hx ⊢
    rcases hx with rfl | hx
    · exact .inr (List.mem_flatMap.2 ⟨y, hy, I.mem_preorder_self _ _⟩)
    · obtain ⟨c, hc, hxc⟩ := List.mem_flatMap.1 hx
      exact .inr (List.mem_flatMap.2 ⟨c, hc, ih c.2 (mem_children hc) hxc⟩)

/-- A walk before the parts meets the nodes of the tree. -/
theorem map_snd_preorder (a : A) (n : Node ρ β) : (I.preorder a n).map Prod.snd = n.nodes := by
  induction n using Node.induction generalizing a with
  | step n ih =>
    rw [preorder_eq, Node.nodes_eq, List.map_cons, preorders, List.map_flatMap]
    conv_rhs => rw [← I.map_snd_parts a n, List.flatMap_map]
    exact congrArg _ (List.flatMap_congr fun c hc => ih c.2 (mem_children hc) c.1)

/-- A walk behind the parts meets the nodes of the tree. -/
theorem map_snd_postorder (a : A) (n : Node ρ β) :
    (I.postorder a n).map Prod.snd = n.postorder := by
  induction n using Node.induction generalizing a with
  | step n ih =>
    rw [postorder_eq, Node.postorder_eq, List.map_append, postorders, List.map_flatMap]
    conv_rhs => rw [← I.map_snd_parts a n, List.flatMap_map]
    exact congrArg (· ++ _) (List.flatMap_congr fun c hc => ih c.2 (mem_children hc) c.1)

/-- What is picked out of a walk together with attributes is, without them, what is picked out of
the nodes behind their parts. -/
lemma map_filterMap_postorder {γ δ : Type} (pick : Node ρ β → Option γ) (join : A → γ → δ)
    {drop : δ → γ} (hdrop : ∀ a c, drop (join a c) = c) (a : A) (n : Node ρ β) :
    ((I.postorder a n).filterMap fun x => (pick x.2).map (join x.1)).map drop =
      n.postorder.filterMap pick := by
  rw [List.map_filterMap, ← I.map_snd_postorder a n, List.filterMap_map]
  refine List.filterMap_congr fun x _ => ?_
  cases h : pick x.2 <;> simp [h, hdrop]

end Inherited

end ScriptCore
