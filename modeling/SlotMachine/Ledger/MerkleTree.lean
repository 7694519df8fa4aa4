import Mathlib.Data.List.Basic
import Mathlib.Tactic

/-!
# Merkle trees against arbitrary proofs

A verifier of a Merkle proof gets the leaf and the siblings from the prover.  It
climbs from the leaf to a root and compares that root with the one it trusts.
The siblings may be anything, also values no hash function returns, so what an
accepted proof says has to come from the trusted root: peel its top level off,
and both the value climbed with and the sibling are those of the tree.

* `Scheme` — how leaves and nodes are hashed; `Scheme.Binding` is what the
  hashes of a scheme without collisions determine.
* `Tree`, `Tree.root`, `Tree.leaves` — the committed tree.
* `climb` — the verifier's walk, with `climb_concat` for its last step.
* `mem_leaves_of_climb` — **a walk that ends at the root started at a leaf**.
-/

namespace Merkle

variable {α V : Type*}

/-- How leaves and nodes are hashed.  Hashing may fail, and it returns digests
only: values of one form, which arbitrary values need not have. -/
structure Scheme (α V : Type*) where
  leaf : α → Option V
  node : V → V → Option V
  IsDigest : V → Prop
  leaf_isDigest : ∀ {a : α} {d : V}, leaf a = some d → IsDigest d
  node_isDigest : ∀ {x y d : V}, node x y = some d → IsDigest d

/-- A scheme without collisions.  A node determines its two halves as soon as
one half of each pair is known to be a digest: the other halves may be anything. -/
structure Scheme.Binding (S : Scheme α V) : Prop where
  leaf_inj : ∀ {a b : α} {d : V}, S.leaf a = some d → S.leaf b = some d → a = b
  leaf_ne_node : ∀ {a : α} {x y d : V}, S.leaf a = some d → S.node x y ≠ some d
  node_inj : ∀ {x y x' y' d : V}, S.IsDigest x → S.IsDigest y → S.IsDigest x' ∨ S.IsDigest y' →
    S.node x y = some d → S.node x' y' = some d → x = x' ∧ y = y'

/-- A binary tree with data at its leaves. -/
inductive Tree (α : Type*) where
  | leaf (a : α)
  | node (l r : Tree α)

namespace Tree

/-- The root hash. -/
def root (S : Scheme α V) : Tree α → Option V
  | leaf a => S.leaf a
  | node l r => do
      let x ← l.root S
      let y ← r.root S
      S.node x y

/-- The data at the leaves, from left to right. -/
def leaves : Tree α → List α
  | leaf a => [a]
  | node l r => l.leaves ++ r.leaves

theorem root_node_eq_some {S : Scheme α V} {l r : Tree α} {d : V} :
    (node l r).root S = some d ↔
      ∃ x y, l.root S = some x ∧ r.root S = some y ∧ S.node x y = some d := by
  simp only [root, Option.bind_eq_bind, Option.bind_eq_some_iff]
  constructor
  · rintro ⟨x, hx, y, hy, h⟩; exact ⟨x, y, hx, hy, h⟩
  · rintro ⟨x, y, hx, hy, h⟩; exact ⟨x, hx, y, hy, h⟩

theorem root_isDigest {S : Scheme α V} {t : Tree α} {d : V} (h : t.root S = some d) :
    S.IsDigest d := by
  cases t with
  | leaf a => exact S.leaf_isDigest h
  | node l r =>
      obtain ⟨x, y, -, -, hnode⟩ := root_node_eq_some.1 h
      exact S.node_isDigest hnode

end Tree

/-- A step of a proof: the sibling, and the side it stands on. -/
structure Sibling (V : Type*) where
  onLeft : Bool
  value : V

/-- Hash a value together with its sibling. -/
def Scheme.join (S : Scheme α V) (v : V) (s : Sibling V) : Option V :=
  if s.onLeft then S.node s.value v else S.node v s.value

/-- The verifier's walk, from the bottom to the top. -/
def climb (S : Scheme α V) : V → List (Sibling V) → Option V
  | v, [] => some v
  | v, s :: steps => do
      let next ← S.join v s
      climb S next steps

/-- The last step of a walk. -/
theorem climb_concat {S : Scheme α V} {v d : V} {steps : List (Sibling V)} {s : Sibling V} :
    climb S v (steps ++ [s]) = some d ↔ ∃ w, climb S v steps = some w ∧ S.join w s = some d := by
  induction steps generalizing v with
  | nil => simp [climb]
  | cons s' steps ih =>
      simp only [List.cons_append, climb, Option.bind_eq_bind, Option.bind_eq_some_iff, ih]
      constructor
      · rintro ⟨next, hnext, w, hw, h⟩; exact ⟨w, ⟨next, hnext, hw⟩, h⟩
      · rintro ⟨w, ⟨next, hnext, hw⟩, h⟩; exact ⟨next, hnext, w, hw, h⟩

/-- A walk that starts at a digest stays at digests. -/
theorem climb_isDigest {S : Scheme α V} {v d : V} {steps : List (Sibling V)} (hv : S.IsDigest v)
    (h : climb S v steps = some d) : S.IsDigest d := by
  induction steps using List.reverseRecOn generalizing d with
  | nil =>
      obtain rfl : v = d := Option.some.inj h
      exact hv
  | append_singleton steps s _ =>
      obtain ⟨w, -, hjoin⟩ := climb_concat.1 h
      unfold Scheme.join at hjoin
      split at hjoin
      · exact S.node_isDigest hjoin
      · exact S.node_isDigest hjoin

/-- **A walk that ends at the root of a tree started at one of its leaves.**
The induction is on the tree, so it takes the last step of the walk first. -/
theorem mem_leaves_of_climb {S : Scheme α V} (hS : S.Binding) {t : Tree α} {a : α} {v d : V}
    {steps : List (Sibling V)} (hleaf : S.leaf a = some v) (hclimb : climb S v steps = some d)
    (hroot : t.root S = some d) : a ∈ t.leaves := by
  induction t generalizing steps d with
  | leaf b =>
      rcases List.eq_nil_or_concat steps with rfl | ⟨steps, s, rfl⟩
      · obtain rfl : v = d := Option.some.inj hclimb
        rw [hS.leaf_inj hleaf hroot]
        exact List.mem_singleton_self b
      · -- above the leaf the walk is at a node, and the root of this tree is none
        rw [List.concat_eq_append] at hclimb
        obtain ⟨w, -, hjoin⟩ := climb_concat.1 hclimb
        unfold Scheme.join at hjoin
        split at hjoin
        · exact absurd hjoin (hS.leaf_ne_node hroot)
        · exact absurd hjoin (hS.leaf_ne_node hroot)
  | node l r ihl ihr =>
      obtain ⟨x, y, hx, hy, hnode⟩ := Tree.root_node_eq_some.1 hroot
      have hdx : S.IsDigest x := Tree.root_isDigest hx
      have hdy : S.IsDigest y := Tree.root_isDigest hy
      rcases List.eq_nil_or_concat steps with rfl | ⟨steps, s, rfl⟩
      · obtain rfl : v = d := Option.some.inj hclimb
        exact absurd hnode (hS.leaf_ne_node hleaf)
      · rw [List.concat_eq_append] at hclimb
        obtain ⟨w, hw, hjoin⟩ := climb_concat.1 hclimb
        have hdw : S.IsDigest w := climb_isDigest (S.leaf_isDigest hleaf) hw
        unfold Scheme.join at hjoin
        split at hjoin
        · have hsame := hS.node_inj hdx hdy (Or.inr hdw) hnode hjoin
          rw [hsame.2] at hy
          exact List.mem_append_right _ (ihr hw hy)
        · have hsame := hS.node_inj hdx hdy (Or.inl hdw) hnode hjoin
          rw [hsame.1] at hx
          exact List.mem_append_left _ (ihl hw hx)

end Merkle
