import SlotMachine.Clvm.Transcript
import SlotMachine.Ledger.MerkleProof
import SlotMachine.Singleton.MerkleUtils
import SlotMachine.Sync.Database

/-!
# The merkle tree of a datastore

`merkle.rs`: a datastore commits to the weights of its NFTs with one root.  The command
line builds the tree from the rows of a file and checks proofs against the root in a loop;
the puzzles check the same proofs with `simplify_merkle_proof`.

* `verifyMerkleProof` — the loop.  `verifyMerkleProof_eq` says that **it accepts what the
  puzzles accept**, for every path and every list of siblings.
* `buildMerkleTree` — the tree of the rows.  `buildMerkleTree_perm` says that the order of
  the rows does not matter, and `verifyMerkleProof_proof` that the proof of every row is
  accepted.
* `not_accepted` — **no proof at all is accepted for a row that is not in the file**.

The tree itself is made by the SDK and is a parameter.  What the module uses of it is that
its leaves are the hashes it is given.
-/

namespace SlotMachine.Datastore

open Sync (CliError)

/-- A row of the file: an NFT and its weight. -/
structure DatastoreNftRecord where
  nftId : Bytes
  weight : ℕ
  deriving DecidableEq

namespace DatastoreNftRecord

/-- The row `(nft_id . weight)`. -/
def toClvm (record : DatastoreNftRecord) : Clvm :=
  .pair (.atom record.nftId) (.ofInt record.weight)

theorem toClvm_injective : Function.Injective toClvm := by
  intro a b h
  simp only [toClvm, Clvm.ofInt, Clvm.pair.injEq, Clvm.atom.injEq] at h
  have hweight : a.weight = b.weight := by exact_mod_cast intToBytes_injective h.2
  cases a
  cases b
  simp_all

end DatastoreNftRecord

/-- `MerkleProof`: a path, and the siblings from the leaf up. -/
structure MerkleProof where
  path : ℕ
  proof : List Bytes

/-- The proof as the puzzles get it. -/
def MerkleProof.toClvm (proof : MerkleProof) : Clvm :=
  .pair (.ofInt proof.path) (.ofList (proof.proof.map .atom))

/-! ## The rows -/

section

variable (encode : Bytes → Except CliError String)

/-- The loop of `reject_duplicates`; `encode` writes an address. -/
def rejectDuplicatesFrom (seen : List Bytes) : List DatastoreNftRecord → Except CliError Unit
  | [] => .ok ()
  | record :: records =>
      if record.nftId ∈ seen then do
        let nftId ← encode record.nftId
        .error (.custom ("Duplicate nft_id in CSV: " ++ nftId))
      else
        rejectDuplicatesFrom (record.nftId :: seen) records

/-- `reject_duplicates`. -/
def rejectDuplicates (records : List DatastoreNftRecord) : Except CliError Unit :=
  rejectDuplicatesFrom encode [] records

variable {encode}

theorem rejectDuplicatesFrom_ok {seen : List Bytes} {records : List DatastoreNftRecord} :
    rejectDuplicatesFrom encode seen records = .ok () ↔
      (records.map DatastoreNftRecord.nftId).Nodup ∧ ∀ r ∈ records, r.nftId ∉ seen := by
  induction records generalizing seen with
  | nil => simp [rejectDuplicatesFrom]
  | cons record records ih =>
    unfold rejectDuplicatesFrom
    by_cases hseen : record.nftId ∈ seen
    · rw [if_pos hseen]
      constructor
      · intro h
        cases hencode : encode record.nftId <;> rw [hencode] at h <;> cases h
      · intro h
        exact absurd hseen (h.2 record (List.mem_cons_self ..))
    · rw [if_neg hseen, ih]
      rw [List.map_cons, List.nodup_cons, List.forall_mem_cons]
      simp only [List.mem_map, not_exists, not_and, List.mem_cons, not_or]
      constructor
      · intro h
        exact ⟨⟨fun r hr => (h.2 r hr).1, h.1⟩, hseen, fun r hr => (h.2 r hr).2⟩
      · intro h
        exact ⟨h.1.2, fun r hr => ⟨h.1.1 r hr, h.2.2 r hr⟩⟩

/-- Rows are let through exactly when no NFT stands in two of them. -/
theorem rejectDuplicates_ok {records : List DatastoreNftRecord} :
    rejectDuplicates encode records = .ok () ↔
      (records.map DatastoreNftRecord.nftId).Nodup := by
  unfold rejectDuplicates
  rw [rejectDuplicatesFrom_ok]
  simp

end

/-- The rows in the order of their NFTs. -/
def sorted (records : List DatastoreNftRecord) : List DatastoreNftRecord :=
  records.mergeSort fun a b => decide (a.nftId ≤ b.nftId)

theorem sorted_perm (records : List DatastoreNftRecord) : (sorted records).Perm records :=
  List.mergeSort_perm _ _

theorem mem_sorted {record : DatastoreNftRecord} {records : List DatastoreNftRecord} :
    record ∈ sorted records ↔ record ∈ records :=
  (sorted_perm records).mem_iff

/-- **Rows with different NFTs have one sorted order**, whatever order they come in. -/
theorem sorted_eq {rows records : List DatastoreNftRecord}
    (hnodup : (records.map DatastoreNftRecord.nftId).Nodup) (hperm : rows.Perm records) :
    sorted rows = sorted records := by
  have hpairwise : ∀ l : List DatastoreNftRecord,
      (sorted l).Pairwise fun a b => a.nftId ≤ b.nftId := by
    intro l
    have h : (sorted l).Pairwise fun a b => decide (a.nftId ≤ b.nftId) = true :=
      List.pairwise_mergeSort (fun a b c => by simpa using le_trans)
        (fun a b => by simpa using le_total a.nftId b.nftId) l
    exact h.imp fun hab => by simpa using hab
  refine List.Perm.eq_of_pairwise ?_ (hpairwise rows) (hpairwise records)
    ((sorted_perm rows).trans (hperm.trans (sorted_perm records).symm))
  intro a b ha hb hab hba
  have ha' : a ∈ records := hperm.mem_iff.1 (mem_sorted.1 ha)
  exact List.inj_on_of_nodup_map hnodup ha' (mem_sorted.1 hb) (le_antisymm hab hba)

/-! ## The tree -/

section

variable (H : HashOracle) (encode : Bytes → Except CliError String)
  (merkleTree : List Bytes → Merkle.Tree Bytes)

/-- `leaf_hash`. -/
def leafHash (record : DatastoreNftRecord) : Option Bytes := H.treeHash record.toClvm

/-- `build_merkle_tree`; the inner `Option` is whether every row has a hash. -/
def buildMerkleTree (records : List DatastoreNftRecord) :
    Except CliError (Option (Merkle.Tree Bytes)) := do
  rejectDuplicates encode records
  return do
    let leaves ← (sorted records).mapM (leafHash H)
    return merkleTree leaves

/-- `merkle_sha256`. -/
def merkleSha256 (parts : List Bytes) : Option Bytes := H.hashAtoms (parts.map .atom)

/-- The loop of `verify_merkle_proof`: it takes one sibling and one bit at a time. -/
def computeRoot (computed : Bytes) (path : ℕ) : List Bytes → Option Bytes
  | [] => some computed
  | sibling :: proof => do
      let computed ←
        if path &&& 1 = 0 then merkleSha256 H [[2], computed, sibling]
        else merkleSha256 H [[2], sibling, computed]
      computeRoot computed (path >>> 1) proof

/-- `verify_merkle_proof`. -/
def verifyMerkleProof (leaf : Bytes) (proof : MerkleProof) (root : Bytes) : Option Bool := do
  let computed ← merkleSha256 H [[1], leaf]
  let computed ← computeRoot H computed proof.path proof.proof
  return decide (computed = root)

end

variable {H : HashOracle} {encode : Bytes → Except CliError String}
  {merkleTree : List Bytes → Merkle.Tree Bytes}

/-! ## Both sides walk the same steps -/

/-- The loop walks the steps of the proof. -/
theorem computeRoot_eq (computed : Bytes) (path : ℕ) (proof : List Bytes) :
    computeRoot H computed path proof
      = Merkle.climb H.merkle computed (Merkle.ofPath path proof) := by
  induction proof generalizing computed path with
  | nil => rfl
  | cons sibling proof ih =>
    unfold computeRoot Merkle.ofPath Merkle.climb
    rw [Nat.and_one_is_mod, Nat.shiftRight_one]
    simp only [ih]
    by_cases hodd : path % 2 = 1
    · rw [if_neg (by omega)]
      simp [Merkle.Scheme.join, hodd, HashOracle.merkle, HashOracle.treeHashPair, merkleSha256]
    · rw [if_pos (by omega)]
      simp [Merkle.Scheme.join, hodd, HashOracle.merkle, HashOracle.treeHashPair, merkleSha256]

/-- So does the puzzle, which gets them as values. -/
theorem simplifyMerkleProofAfterLeaf_eq (leafHash : Bytes) (path : ℕ) (proof : List Bytes) :
    H.simplifyMerkleProofAfterLeaf leafHash (.ofInt path) (.ofList (proof.map .atom))
      = Merkle.climb H.merkle leafHash (Merkle.ofPath path proof) := by
  induction proof generalizing leafHash path with
  | nil => rfl
  | cons sibling proof ih =>
    simp only [List.map_cons, Clvm.ofList]
    unfold HashOracle.simplifyMerkleProofAfterLeaf Merkle.ofPath Merkle.climb
    simp only [Clvm.ofInt, Clvm.bytes?, natFromBytes_intToBytes, Option.bind_eq_bind,
      Option.bind_some]
    simp only [Clvm.ofInt] at ih
    simp only [ih]
    by_cases hodd : path % 2 = 1
    · simp [Merkle.Scheme.join, hodd, HashOracle.merkle]
    · simp [Merkle.Scheme.join, hodd, HashOracle.merkle]

/-- **The loop accepts a proof exactly when the puzzles get the root from it.** -/
theorem verifyMerkleProof_eq (leaf root : Bytes) (proof : MerkleProof) :
    verifyMerkleProof H leaf proof root
      = (H.simplifyMerkleProof leaf proof.toClvm).map fun computed => decide (computed = root) := by
  unfold verifyMerkleProof HashOracle.simplifyMerkleProof MerkleProof.toClvm
  have hleaf : merkleSha256 H [[1], leaf] = H.treeHashAtom (.atom leaf) := rfl
  rw [hleaf]
  cases H.treeHashAtom (.atom leaf) with
  | none => rfl
  | some computed =>
    simp only [Option.bind_eq_bind, Option.bind_some, Clvm.uncons,
      simplifyMerkleProofAfterLeaf_eq, computeRoot_eq]
    cases Merkle.climb H.merkle computed (Merkle.ofPath proof.path proof.proof) <;> rfl

theorem verifyMerkleProof_eq_true {leaf root : Bytes} {proof : MerkleProof} :
    verifyMerkleProof H leaf proof root = some true ↔
      H.simplifyMerkleProof leaf proof.toClvm = some root := by
  rw [verifyMerkleProof_eq]
  cases H.simplifyMerkleProof leaf proof.toClvm <;> simp

/-! ## What the root commits to -/

/-- **The order of the rows does not matter.** -/
theorem buildMerkleTree_perm {rows records : List DatastoreNftRecord}
    (hnodup : (records.map DatastoreNftRecord.nftId).Nodup) (hperm : rows.Perm records) :
    buildMerkleTree H encode merkleTree rows = buildMerkleTree H encode merkleTree records := by
  have hrows : (rows.map DatastoreNftRecord.nftId).Nodup := (hperm.map _).nodup_iff.2 hnodup
  unfold buildMerkleTree
  rw [rejectDuplicates_ok.2 hnodup, rejectDuplicates_ok.2 hrows, sorted_eq hnodup hperm]

/-- What a computation over the rows returns is the results for the rows. -/
theorem mem_of_mapM {α β : Type} {f : α → Option β} {l : List α} {out : List β}
    (h : l.mapM f = some out) {y : β} : y ∈ out ↔ ∃ x ∈ l, f x = some y := by
  induction l generalizing out with
  | nil =>
    obtain rfl : [] = out := Option.some.inj h
    simp
  | cons x l ih =>
    rw [List.mapM_cons] at h
    obtain ⟨z, hz, h⟩ := bind_elim h
    obtain ⟨zs, hzs, h⟩ := bind_elim h
    obtain rfl : z :: zs = out := Option.some.inj h
    simp only [List.mem_cons, exists_eq_or_imp, hz, Option.some.injEq]
    exact or_congr eq_comm (ih hzs)

/-- Every row has a result. -/
theorem exists_of_mapM {α β : Type} {f : α → Option β} {l : List α} {out : List β}
    (h : l.mapM f = some out) {x : α} (hx : x ∈ l) : ∃ y, f x = some y := by
  induction l generalizing out with
  | nil => cases hx
  | cons z l ih =>
    rw [List.mapM_cons] at h
    obtain ⟨y, hy, h⟩ := bind_elim h
    obtain ⟨ys, hys, -⟩ := bind_elim h
    rcases List.mem_cons.1 hx with rfl | hx
    · exact ⟨y, hy⟩
    · exact ih hys hx

/-- What was built is the tree of the hashes of the rows, which are not in conflict. -/
theorem buildMerkleTree_eq_ok {records : List DatastoreNftRecord} {built} :
    buildMerkleTree H encode merkleTree records = .ok built ↔
      (records.map DatastoreNftRecord.nftId).Nodup ∧
        built = ((sorted records).mapM (leafHash H)).map merkleTree := by
  have hmap : (do let leaves ← (sorted records).mapM (leafHash H); return merkleTree leaves)
      = ((sorted records).mapM (leafHash H)).map merkleTree := by
    cases (sorted records).mapM (leafHash H) <;> rfl
  unfold buildMerkleTree
  have hok : rejectDuplicates encode records = .ok () ↔
      (records.map DatastoreNftRecord.nftId).Nodup := rejectDuplicates_ok
  rw [hmap, ← hok]
  cases rejectDuplicates encode records with
  | error e => simp [bind, Except.bind]
  | ok u => simp [bind, Except.bind, pure, Except.pure, eq_comm]

/-- A tree is only built if every row has a hash. -/
theorem exists_leafHash {records : List DatastoreNftRecord} {tree : Merkle.Tree Bytes}
    (h : buildMerkleTree H encode merkleTree records = .ok (some tree))
    {record : DatastoreNftRecord} (hrecord : record ∈ records) :
    ∃ leaf, leafHash H record = some leaf := by
  obtain ⟨leaves, hleaves, -⟩ := Option.map_eq_some_iff.1 (buildMerkleTree_eq_ok.1 h).2.symm
  exact exists_of_mapM hleaves (mem_sorted.2 hrecord)

/-- The leaves of the tree are the hashes of the rows. -/
theorem mem_leaves {records : List DatastoreNftRecord} {tree : Merkle.Tree Bytes}
    (hsdk : ∀ leaves ≠ [], (merkleTree leaves).leaves = leaves) (hne : records ≠ [])
    (h : buildMerkleTree H encode merkleTree records = .ok (some tree)) {leaf : Bytes} :
    leaf ∈ tree.leaves ↔ ∃ r ∈ records, leafHash H r = some leaf := by
  obtain ⟨leaves, hleaves, rfl⟩ := Option.map_eq_some_iff.1 (buildMerkleTree_eq_ok.1 h).2.symm
  have hrows : ∀ {y : Bytes}, y ∈ leaves ↔ ∃ r ∈ records, leafHash H r = some y := by
    intro y
    simp only [mem_of_mapM hleaves, mem_sorted]
  have hne' : leaves ≠ [] := by
    rintro rfl
    obtain ⟨r, hr⟩ := List.exists_mem_of_ne_nil records hne
    obtain ⟨y, hy⟩ := exists_leafHash h hr
    exact absurd (hrows.2 ⟨r, hr, hy⟩) (List.not_mem_nil)
  rw [hsdk leaves hne']
  exact hrows

/-- **The proof of every leaf is accepted.** -/
theorem verifyMerkleProof_proof {tree : Merkle.Tree Bytes} {leaf root : Bytes}
    (hroot : tree.root H.merkle = some root) (hleaf : leaf ∈ tree.leaves) :
    ∃ path proof, tree.proof H.merkle leaf = some (path, proof) ∧
      verifyMerkleProof H leaf ⟨path, proof⟩ root = some true := by
  obtain ⟨⟨path, proof⟩, hproof⟩ := Merkle.Tree.exists_proof hroot hleaf
  obtain ⟨v, hv, hclimb⟩ := Merkle.climb_proof hroot hproof
  have hv' : merkleSha256 H [[1], leaf] = some v := hv
  refine ⟨path, proof, hproof, ?_⟩
  unfold verifyMerkleProof
  simp only [hv', computeRoot_eq, hclimb, Option.bind_eq_bind, Option.bind_some, decide_true]
  rfl

/-- **Nothing leads from a row that is not in the file to the root.** -/
theorem not_accepted (hH : H.CollisionFree)
    (hsdk : ∀ leaves ≠ [], (merkleTree leaves).leaves = leaves)
    {records : List DatastoreNftRecord} (hne : records ≠ []) {tree : Merkle.Tree Bytes}
    (h : buildMerkleTree H encode merkleTree records = .ok (some tree)) {leaf root : Bytes}
    (hroot : tree.root H.merkle = some root) {record : DatastoreNftRecord}
    (hrecord : record ∉ records) (hleaf : leafHash H record = some leaf) (proof : Clvm) :
    H.simplifyMerkleProof leaf proof ≠ some root := by
  intro haccepted
  have hmem := HashOracle.mem_leaves_of_simplifyMerkleProof hH hroot haccepted
  obtain ⟨r, hr, hsame⟩ := (mem_leaves hsdk hne h).1 hmem
  have heq : r = record :=
    DatastoreNftRecord.toClvm_injective (HashOracle.treeHash_inj hH hsame hleaf)
  exact hrecord (heq ▸ hr)

/-- The loop of the command line and the function of the puzzles give the same answer on
every proof.  The tree of a file without duplicates does not depend on the order of its
rows; the proof the tree has for a row is accepted, and without collisions no proof is
accepted for a row that is not in the file. -/
theorem datastore_proofs_agree (H : HashOracle) (encode : Bytes → Except CliError String)
    (merkleTree : List Bytes → Merkle.Tree Bytes)
    (hsdk : ∀ leaves ≠ [], (merkleTree leaves).leaves = leaves) :
    (∀ (leaf root : Bytes) (proof : MerkleProof),
      verifyMerkleProof H leaf proof root = (H.simplifyMerkleProof leaf proof.toClvm).map
        fun computed => decide (computed = root)) ∧
    ∀ records : List DatastoreNftRecord, records ≠ [] →
      (records.map DatastoreNftRecord.nftId).Nodup →
      (∀ rows, rows.Perm records →
        buildMerkleTree H encode merkleTree rows
          = .ok (((sorted records).mapM (leafHash H)).map merkleTree)) ∧
      ∀ tree root, buildMerkleTree H encode merkleTree records = .ok (some tree) →
        tree.root H.merkle = some root →
        (∀ record ∈ records, ∃ leaf path proof, leafHash H record = some leaf ∧
          tree.proof H.merkle leaf = some (path, proof) ∧
          verifyMerkleProof H leaf ⟨path, proof⟩ root = some true) ∧
        (H.CollisionFree → ∀ record ∉ records, ∀ leaf, leafHash H record = some leaf →
          (∀ proof, verifyMerkleProof H leaf proof root ≠ some true) ∧
          ∀ proof, H.simplifyMerkleProof leaf proof ≠ some root) := by
  refine ⟨verifyMerkleProof_eq, fun records hne hnodup => ⟨?_, ?_⟩⟩
  · intro rows hperm
    rw [buildMerkleTree_perm hnodup hperm]
    exact buildMerkleTree_eq_ok.2 ⟨hnodup, rfl⟩
  · intro tree root hbuild hroot
    refine ⟨fun record hrecord => ?_, fun hH record hrecord leaf hleaf => ⟨?_, ?_⟩⟩
    · obtain ⟨leaf, hleaf⟩ := exists_leafHash hbuild hrecord
      obtain ⟨path, proof, hproof, haccepted⟩ :=
        verifyMerkleProof_proof hroot ((mem_leaves hsdk hne hbuild).2 ⟨record, hrecord, hleaf⟩)
      exact ⟨leaf, path, proof, hleaf, hproof, haccepted⟩
    · intro proof haccepted
      exact not_accepted hH hsdk hne hbuild hroot hrecord hleaf _
        (verifyMerkleProof_eq_true.1 haccepted)
    · exact not_accepted hH hsdk hne hbuild hroot hrecord hleaf

/-! ## Two rows -/

namespace TwoRows

/-- The rows, and one that is not in the file. -/
def low : DatastoreNftRecord := ⟨List.replicate 32 1, 10⟩

def high : DatastoreNftRecord := ⟨List.replicate 32 2, 20⟩

def absent : DatastoreNftRecord := ⟨List.replicate 32 1, 11⟩

def digest (record : DatastoreNftRecord) : Bytes := (Skeleton.ofClvm record.toClvm).hash

/-- The tree of the two rows, as a value. -/
def node : Clvm := .pair (.atom (digest low)) (.atom (digest high))

def skeletons : List Skeleton :=
  [.ofClvm low.toClvm, .ofClvm high.toClvm, .ofClvm absent.toClvm, .ofClvm node]

def hash : HashOracle := .ofSkeletons skeletons

theorem hash_collisionFree : hash.CollisionFree :=
  HashOracle.ofSkeletons_collisionFree (by decide +kernel)

/-- A tree with one leaf on the left of every node; for two leaves it is the SDK's. -/
def comb : List Bytes → Merkle.Tree Bytes
  | [] => .leaf []
  | [leaf] => .leaf leaf
  | leaf :: other :: leaves => .node (.leaf leaf) (comb (other :: leaves))

theorem leaves_comb : ∀ leaves ≠ [], (comb leaves).leaves = leaves
  | [leaf], _ => rfl
  | leaf :: other :: leaves, _ => by
      rw [comb, Merkle.Tree.leaves, leaves_comb (other :: leaves) (by simp)]
      rfl

theorem sorted_rows : sorted [low, high] = [low, high] :=
  List.mergeSort_of_pairwise (by decide)

theorem mapM_rows : (sorted [low, high]).mapM (leafHash hash) = some [digest low, digest high] := by
  have hlow : leafHash hash low = some (digest low) :=
    HashOracle.treeHash_ofSkeletons (List.mem_cons_self ..)
  have hhigh : leafHash hash high = some (digest high) :=
    HashOracle.treeHash_ofSkeletons (List.mem_cons_of_mem _ (List.mem_cons_self ..))
  rw [sorted_rows]
  simp [List.mapM_cons, hlow, hhigh]

end TwoRows

open TwoRows in
/-- A file of two rows: it is read in either order, both proofs are accepted, and none is
for the first NFT with another weight. -/
theorem datastore_proofs_agree_two : ∃ tree root leaf,
    buildMerkleTree hash (fun _ => .ok "") comb [high, low] = .ok (some tree) ∧
    tree.root hash.merkle = some root ∧
    (∀ record ∈ [low, high], ∃ leaf path proof, leafHash hash record = some leaf ∧
      tree.proof hash.merkle leaf = some (path, proof) ∧
      verifyMerkleProof hash leaf ⟨path, proof⟩ root = some true) ∧
    leafHash hash absent = some leaf ∧
    ∀ proof, verifyMerkleProof hash leaf proof root ≠ some true := by
  have habsent : leafHash hash absent = some (digest absent) :=
    HashOracle.treeHash_ofSkeletons (by simp [skeletons])
  have hroot : (comb [digest low, digest high]).root hash.merkle
      = some (Skeleton.ofClvm node).hash :=
    @HashOracle.treeHash_ofSkeletons skeletons node (by simp [skeletons])
  obtain ⟨-, h⟩ := datastore_proofs_agree hash (fun _ => .ok "") comb leaves_comb
  obtain ⟨hbuild, h⟩ := h [low, high] (by simp) (by decide)
  rw [mapM_rows] at hbuild
  obtain ⟨haccepted, hrejected⟩ := h _ _ (hbuild _ (List.Perm.refl _)) hroot
  exact ⟨_, _, _, hbuild _ (List.Perm.swap ..), hroot, haccepted, habsent,
    (hrejected hash_collisionFree absent (by decide) _ habsent).1⟩

end SlotMachine.Datastore
