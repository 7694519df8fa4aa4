import SlotMachine.Clvm.TreeHash
import SlotMachine.Ledger.MerkleTree

/-!
# Merkle proofs on the chain

`merkle_utils.rue`: the trees of puzzle hashes an action layer commits to, and
the proofs it checks.  The siblings of a proof come from a solution, so they may
be atoms of any length, or pairs.

* `merkle` — leaves are hashed as atoms and nodes as pairs; `merkle_binding`
  says what follows when nothing collides.
* `simplifyMerkleProof` — the root a proof leads to.
* `mem_leaves_of_simplifyMerkleProof` — **a proof that leads to the root of a
  tree is one for a leaf of the tree**.
-/

namespace SlotMachine

namespace HashOracle

variable (H : HashOracle)

/-- Leaf hash `sha256(1, leaf)`, node hash `sha256(2, left, right)`. -/
def merkle : Merkle.Scheme Bytes Bytes where
  leaf a := H.treeHashAtom (.atom a)
  node x y := H.treeHashPair (.atom x) (.atom y)
  IsDigest d := d.length = 32
  leaf_isDigest h := length_hashAtoms h
  node_isDigest h := length_hashAtoms h

/-- `simplify_merkle_proof_after_leaf`.  The lowest bit of the path says on which
side the next sibling is, and the path is read as an unsigned number. -/
def simplifyMerkleProofAfterLeaf (leafHash : Bytes) (path : Clvm) : Clvm → Option Bytes
  | .atom [] => some leafHash
  | .atom (_ :: _) => none
  | .pair sibling hashes => do
      let p ← path.bytes?
      let next ← H.treeHashPair
        (if natFromBytes p % 2 = 1 then sibling else .atom leafHash)
        (if natFromBytes p % 2 = 1 then .atom leafHash else sibling)
      simplifyMerkleProofAfterLeaf next (.ofInt (natFromBytes p / 2 : ℕ)) hashes

/-- `simplify_merkle_proof`, for a proof `(path . hashes)`. -/
def simplifyMerkleProof (leaf : Bytes) (proof : Clvm) : Option Bytes := do
  let leafHash ← H.treeHashAtom (.atom leaf)
  let (path, hashes) ← proof.uncons
  H.simplifyMerkleProofAfterLeaf leafHash path hashes

variable {H}

/-- Without collisions a node of two digests is a node of nothing else: the
other preimage is as long, so a half of 32 bytes leaves 32 bytes for the other. -/
theorem merkle_binding (hH : H.CollisionFree) : H.merkle.Binding where
  leaf_inj h h' := Clvm.atom.inj (treeHashAtom_inj hH h h')
  leaf_ne_node h h' := treeHashAtom_ne_treeHashPair hH h h' rfl
  node_inj := by
    intro x y x' y' d hx hy hdigest h h'
    have hsame : x ++ y = x' ++ y' := treeHashPair_append_inj hH h h'
    have hlen : x.length + y.length = x'.length + y'.length := by
      rw [← List.length_append, hsame, List.length_append]
    have hx' : x.length = x'.length := by
      simp only [merkle] at hx hy hdigest
      omega
    exact List.append_inj hsame hx'

/-- Simplifying a proof is a walk, with siblings that are atoms. -/
theorem exists_climb {leafHash root : Bytes} {path hashes : Clvm}
    (h : H.simplifyMerkleProofAfterLeaf leafHash path hashes = some root) :
    ∃ steps, Merkle.climb H.merkle leafHash steps = some root := by
  induction hashes generalizing leafHash path with
  | atom b =>
      cases b with
      | nil => exact ⟨[], h⟩
      | cons _ _ => exact absurd h (by simp [simplifyMerkleProofAfterLeaf])
  | pair sibling hashes _ ih =>
      obtain ⟨p, -, h1⟩ := bind_elim h
      obtain ⟨next, hnext, h2⟩ := bind_elim h1
      obtain ⟨steps, hsteps⟩ := ih h2
      by_cases hodd : natFromBytes p % 2 = 1
      · rw [if_pos hodd, if_pos hodd] at hnext
        obtain ⟨a, _, rfl, -, -⟩ := treeHashPair_eq_some.1 hnext
        exact ⟨⟨true, a⟩ :: steps, bind_intro hnext hsteps⟩
      · rw [if_neg hodd, if_neg hodd] at hnext
        obtain ⟨_, a, -, rfl, -⟩ := treeHashPair_eq_some.1 hnext
        exact ⟨⟨false, a⟩ :: steps, bind_intro hnext hsteps⟩

/-- **A proof that leads to the root of a tree is one for a leaf of the tree.** -/
theorem mem_leaves_of_simplifyMerkleProof (hH : H.CollisionFree) {tree : Merkle.Tree Bytes}
    {leaf root : Bytes} {proof : Clvm} (hroot : tree.root H.merkle = some root)
    (h : H.simplifyMerkleProof leaf proof = some root) : leaf ∈ tree.leaves := by
  obtain ⟨leafHash, hleaf, h1⟩ := bind_elim h
  obtain ⟨⟨path, hashes⟩, -, h2⟩ := bind_elim h1
  obtain ⟨steps, hclimb⟩ := exists_climb h2
  exact Merkle.mem_leaves_of_climb (merkle_binding hH) hleaf hclimb hroot

end HashOracle

end SlotMachine
