import SlotMachine.Chain.Encoding
import SlotMachine.Rue.Library
import SlotMachine.Singleton.MerkleUtils

/-!
# The Chialisp libraries

The repository holds its puzzles twice: in Rue, and in Chialisp with the
libraries under `include/`.  This file has the libraries, and says of each what
it computes in terms of its Rue counterpart.

* `curryHashes` (`curry.clib`) — with the four hashes of the library written out;
  `curryHashes_eq` says that it is `curry_tree_hash` when these are the hashes they
  are said to be (`CurryConstants`), which `sha256_curryConstants` checks.
* `spendSlot`, `createSlot`, `createSlotWithHint` (`slots.clib`).
* `simplifyMerkleProof` (`merkle_utils.clib`), `secureNft` (`secure_nft.clib`).
* `xchandlesSlotValueHash`, `xchandlesPrecommitmentValue` (`xchandles.clib`).
-/

namespace SlotMachine.Chialisp

/-! ## Programs that may raise

The order in which a program computes its parts can only be seen in whether it
raises, so two programs are compared part by part, from the front. -/

section

variable {α β γ δ : Type} {x : Option α} {m : δ → γ} {k : δ → Option γ}

theorem some_bind (a : α) (f : α → Option γ) : (some a >>= f) = f a := rfl

theorem none_bind (f : α → Option γ) : (none >>= f) = none := rfl

theorem bind_none : (x >>= fun _ => (none : Option γ)) = none := Option.bind_fun_none ..

/-- Two programs that start alike agree if what follows does. -/
theorem bind_congr_bind {f : α → Option γ} {g : α → Option δ} (h : ∀ a, f a = g a >>= k) :
    (x >>= f) = ((x >>= g) >>= k) := by
  cases x with
  | none => rfl
  | some a => exact h a

/-- The same, when the first result is turned into a tree on one side. -/
theorem map_bind_congr_bind {c : α → β} {f : β → Option γ} {g : α → Option δ}
    (h : ∀ a, f (c a) = g a >>= k) : (x.map c >>= f) = ((x >>= g) >>= k) := by
  cases x with
  | none => rfl
  | some a => exact h a

/-- The same, when what is returned in the end is turned into a tree. -/
theorem bind_congr_map {f : α → Option γ} {g : α → Option δ} (h : ∀ a, f a = (g a).map m) :
    (x >>= f) = (x >>= g).map m := by
  cases x with
  | none => rfl
  | some a => exact h a

theorem map_bind_congr_map {c : α → β} {f : β → Option γ} {g : α → Option δ}
    (h : ∀ a, f (c a) = (g a).map m) : (x.map c >>= f) = (x >>= g).map m := by
  cases x with
  | none => rfl
  | some a => exact h a

theorem bytes?_atom (b : Bytes) : (Clvm.atom b).bytes? = some b := rfl

theorem hashAtoms_pair (H : HashOracle) (a b : Clvm) (vs : List Clvm) :
    H.hashAtoms (.pair a b :: vs) = none := rfl

/-- The operator `=` does not mind the order of its operands. -/
theorem eq_swap (a b : Clvm) : a.eq b = b.eq a := by
  cases a with
  | pair _ _ => cases b <;> rfl
  | atom x =>
    cases b with
    | pair _ _ => rfl
    | atom y => exact congrArg some (decide_eq_decide.2 eq_comm)

end

/-! ## `curry.clib` -/

/-- `sha256_one`: said to be `(sha256 1)`. -/
def sha256One : Bytes :=
  natToBytes 32 0x4bf5122f344554c53bde2ebb8cd2b7e3d1600ad631c385a5d7cce23c7785459a

/-- `sha256_one_one`: said to be `(sha256 1 #q)`. -/
def sha256OneOne : Bytes :=
  natToBytes 32 0x9dcf97a184f32623d11a73124ceb99a5709b083721e878a16d78f596718ba7b2

/-- `two_sha256_one_a_kw`: said to be `(concat 2 (sha256 1 #a))`. -/
def twoSha256OneAKw : Bytes :=
  natToBytes 33 0x02a12871fee210fb8619291eaea194581cbd2531e4b23759d225f6806923f63222

/-- `two_sha256_one_c_kw`: said to be `(concat 2 (sha256 1 #c))`. -/
def twoSha256OneCKw : Bytes :=
  natToBytes 33 0x02a8d5dd63fba471ebcb1f3e8f7c1e1879b7152a6e7298a91ce119a63400ade7c5

/-- The hashes are what they are said to be. -/
structure CurryConstants (H : HashOracle) : Prop where
  one : H.treeHashAtom .nil = some sha256One
  one_one : H.treeHashAtom (.atom [1]) = some sha256OneOne
  one_a_kw : H.treeHashAtom (.atom [2]) = some twoSha256OneAKw.tail
  one_c_kw : H.treeHashAtom (.atom [4]) = some twoSha256OneCKw.tail

theorem sha256_curryConstants : CurryConstants .sha256 where
  one := by
    have h : Sha256.hash [1] = sha256One := by decide +kernel
    exact congrArg some h
  one_one := by
    have h : Sha256.hash [1, 1] = sha256OneOne := by decide +kernel
    exact congrArg some h
  one_a_kw := by
    have h : Sha256.hash [1, 2] = twoSha256OneAKw.tail := by decide +kernel
    exact congrArg some h
  one_c_kw := by
    have h : Sha256.hash [1, 4] = twoSha256OneCKw.tail := by decide +kernel
    exact congrArg some h

section

variable (H : HashOracle)

/-- `hash_expression_F`. -/
def hashExpressionF (a1 : Clvm) (a2 : Bytes) : Option Bytes := do
  let left ← H.hashAtoms [.atom [2], .atom sha256OneOne, a1]
  let right ← H.hashAtoms [.atom [2], .atom a2, .atom sha256One]
  H.hashAtoms [.atom [2], .atom left, .atom right]

/-- `update_hash_for_parameter_hash`. -/
def updateHashForParameterHash (parameterHash : Clvm) (environmentHash : Bytes) :
    Option Bytes := do
  let f ← hashExpressionF H parameterHash environmentHash
  H.hashAtoms [.atom twoSha256OneCKw, .atom f]

/-- `tree_hash_of_apply`. -/
def treeHashOfApply (modHash : Clvm) (environmentHash : Bytes) : Option Bytes := do
  let f ← hashExpressionF H modHash environmentHash
  H.hashAtoms [.atom twoSha256OneAKw, .atom f]

/-- `calculate_hash_of_curried_parameters`. -/
def calculateHashOfCurriedParameters : List Clvm → Option Bytes
  | [] => some sha256OneOne
  | parameterHash :: parameterHashes => do
      let environmentHash ← calculateHashOfCurriedParameters parameterHashes
      updateHashForParameterHash H parameterHash environmentHash

/-- `curry_hashes`, and `curry_hashes_inline`, which writes out the same. -/
def curryHashes (modHash : Clvm) (parameterHashes : List Clvm) : Option Bytes := do
  let environmentHash ← calculateHashOfCurriedParameters H parameterHashes
  treeHashOfApply H modHash environmentHash

variable {H}

/-- A two in front of the first hash is a two on its own. -/
theorem hashAtoms_cons_two (h f : Bytes) :
    H.hashAtoms [.atom (2 :: h), .atom f] = H.treeHashPair (.atom h) (.atom f) := by
  unfold HashOracle.hashAtoms HashOracle.treeHashPair HashOracle.hashAtoms
  simp

theorem updateHashForParameterHash_eq (hH : CurryConstants H) (p : Clvm) (e : Bytes) :
    updateHashForParameterHash H p e = H.hashExpression 4 p e := by
  have hkw : twoSha256OneCKw = 2 :: twoSha256OneCKw.tail := by decide
  unfold updateHashForParameterHash HashOracle.hashExpression hashExpressionF
  rw [hH.one, hH.one_one, hH.one_c_kw, hkw]
  simp only [hashAtoms_cons_two, Option.bind_eq_bind, Option.bind_some, Option.bind_assoc]
  rfl

theorem treeHashOfApply_eq (hH : CurryConstants H) (p : Clvm) (e : Bytes) :
    treeHashOfApply H p e = H.hashExpression 2 p e := by
  have hkw : twoSha256OneAKw = 2 :: twoSha256OneAKw.tail := by decide
  unfold treeHashOfApply HashOracle.hashExpression hashExpressionF
  rw [hH.one, hH.one_one, hH.one_a_kw, hkw]
  simp only [hashAtoms_cons_two, Option.bind_eq_bind, Option.bind_some, Option.bind_assoc]
  rfl

theorem calculateHashOfCurriedParameters_eq (hH : CurryConstants H) (ps : List Clvm) :
    calculateHashOfCurriedParameters H ps = H.curriedParametersHash ps := by
  induction ps with
  | nil => exact hH.one_one.symm
  | cons p ps ih =>
      unfold calculateHashOfCurriedParameters HashOracle.curriedParametersHash
      rw [ih]
      simp only [updateHashForParameterHash_eq hH]

/-- **The two ways to hash a curried program agree.** -/
theorem curryHashes_eq (hH : CurryConstants H) (m : Clvm) (ps : List Clvm) :
    curryHashes H m ps = H.curryTreeHash m ps := by
  unfold curryHashes HashOracle.curryTreeHash
  rw [calculateHashOfCurriedParameters_eq hH]
  simp only [treeHashOfApply_eq hH]

end

/-! ## `slots.clib` -/

section

variable (H : HashOracle)

/-- The puzzle hash of a slot, as each function of the library computes it. -/
def slotPuzzleHash (slot1stCurryHash : Clvm) (slotValueHash : Bytes) : Option Bytes := do
  let valueHash ← H.hashAtoms [.atom [1], .atom slotValueHash]
  curryHashes H slot1stCurryHash [.atom valueHash]

/-- `spend_slot` and `spend_slot_inline`. -/
def spendSlot (slot1stCurryHash : Clvm) (slotValueHash : Bytes) : Option Clvm := do
  let ph ← slotPuzzleHash H slot1stCurryHash slotValueHash
  return .ofList [.atom [66], .atom [18], .nil, .atom ph]

/-- `create_slot_with_hint`. -/
def createSlotWithHint (slot1stCurryHash : Clvm) (slotValueHash : Bytes) (hint : Clvm) :
    Option Clvm := do
  let ph ← slotPuzzleHash H slot1stCurryHash slotValueHash
  return .ofList [.atom [51], .atom ph, .nil, .ofList [hint]]

/-- `create_slot` and `create_slot_inline`. -/
def createSlot (slot1stCurryHash : Clvm) (slotValueHash : Bytes) : Option Clvm := do
  let ph ← slotPuzzleHash H slot1stCurryHash slotValueHash
  return .ofList [.atom [51], .atom ph, .nil, .ofList [slot1stCurryHash]]

variable {H}

theorem slotPuzzleHash_eq (hH : CurryConstants H) (fc : Clvm) (d : Bytes) :
    slotPuzzleHash H fc d = Rue.getSlotPuzzleHash H fc d := by
  unfold slotPuzzleHash Rue.getSlotPuzzleHash
  simp only [curryHashes_eq hH]
  rfl

theorem spendSlot_eq (hH : CurryConstants H) (fc : Clvm) (d : Bytes) :
    spendSlot H fc d = (Rue.spendSlot H fc d).map Condition.toClvm := by
  unfold spendSlot Rue.spendSlot
  rw [slotPuzzleHash_eq hH]
  cases Rue.getSlotPuzzleHash H fc d <;> rfl

theorem createSlotWithHint_eq (hH : CurryConstants H) (fc : Clvm) (d : Bytes) (hint : Clvm) :
    createSlotWithHint H fc d hint = (Rue.createSlotWithHint H fc d hint).map Condition.toClvm := by
  unfold createSlotWithHint Rue.createSlotWithHint
  rw [slotPuzzleHash_eq hH]
  cases Rue.getSlotPuzzleHash H fc d <;> rfl

theorem createSlot_eq (hH : CurryConstants H) (fc : Clvm) (d : Bytes) :
    createSlot H fc d = (Rue.createSlot H fc d).map Condition.toClvm :=
  createSlotWithHint_eq hH fc d fc

end

/-! ## `xchandles.clib` -/

section

variable (H : HashOracle)

/-- `get_xchandles_slot_value_hash`. -/
def xchandlesSlotValueHash (counter handleHash neighbors expiration data : Clvm) :
    Option Bytes :=
  H.treeHash (.pair counter (.pair (.pair handleHash neighbors) (.pair expiration data)))

/-- `xchandles_precommitment_value`. -/
def xchandlesPrecommitmentValue (catMakerHash catMakerSolution pricingPuzzleHash
    pricingPuzzleSolution handle secret ownerLauncherId resolvedData : Clvm) : Option Bytes :=
  H.treeHash (.pair
    (.pair (.pair catMakerHash catMakerSolution) (.pair pricingPuzzleHash pricingPuzzleSolution))
    (.pair (.pair handle secret) (.pair ownerLauncherId resolvedData)))

/-- The hash of a singleton, which the actions write out. -/
def singletonPuzzleHash (singletonModHash singletonLauncherPuzzleHash launcherId
    innerPuzzleHash : Clvm) : Option Bytes := do
  let struct ← H.treeHash
    (.pair singletonModHash (.pair launcherId singletonLauncherPuzzleHash))
  curryHashes H singletonModHash [.atom struct, innerPuzzleHash]

variable {H}

theorem singletonPuzzleHash_eq (hH : CurryConstants H) (m l i p : Clvm) :
    singletonPuzzleHash H m l i p = Rue.singletonPuzzleHash H m l i p := by
  unfold singletonPuzzleHash Rue.singletonPuzzleHash
  simp only [curryHashes_eq hH]

end

/-! ## `secure_nft.clib` -/

section

variable (H : HashOracle)

/-- `secure_nft`. -/
def secureNft (nftPack innerPuzzleHash launcherId : Clvm) : Option Clvm := do
  let pack ← Rue.NftPackTree.ofClvm? nftPack
  let struct ← H.treeHash (.pair pack.singletonModHash (.pair launcherId pack.launcherModHash))
  let ownershipMod ← H.hashAtoms [.atom [1], pack.nftOwnershipModHash]
  let percentage ← H.hashAtoms [.atom [1], pack.tradePricePercentage]
  let transferProgram ← curryHashes H pack.transferProgramModHash
    [.atom struct, pack.royaltyAddressHash, .atom percentage]
  -- owner is ()
  let ownershipLayer ← curryHashes H pack.nftOwnershipModHash
    [.atom ownershipMod, .atom sha256One, .atom transferProgram, innerPuzzleHash]
  let stateLayerMod ← H.hashAtoms [.atom [1], pack.nftStateLayerModHash]
  -- metadata is ()
  let stateLayer ← curryHashes H pack.nftStateLayerModHash
    [.atom stateLayerMod, .atom sha256One, pack.metadataUpdaterHashHash, .atom ownershipLayer]
  let full ← curryHashes H pack.singletonModHash [.atom struct, .atom stateLayer]
  let id ← H.coinid launcherId (.atom full) (.atom [1])
  return .ofList [.atom [64], .atom id]

variable {H}

theorem secureNft_eq (hH : CurryConstants H) (nftPack i l : Clvm) :
    secureNft H nftPack i l = (Rue.NftPackTree.ofClvm? nftPack).bind fun pack =>
      (Rue.secureNft H pack i l).map Condition.toClvm := by
  have hatom : ∀ v, H.hashAtoms [.atom [1], v] = H.treeHashAtom v := fun _ => rfl
  unfold secureNft Rue.secureNft Rue.nftCoinId Rue.nftPuzzleHash
  simp only [hatom, curryHashes_eq hH, hH.one, Option.bind_eq_bind, Option.bind_some,
    Option.map_bind, Option.bind_assoc, Option.pure_def, Function.comp_def, Option.map_some]
  rfl

end

/-! ## `merkle_utils.clib` -/

section

variable (H : HashOracle)

/-- `simplify_merkle_proof_after_leaf`, for a proof `(bitpath . hashes_path)`. -/
def simplifyMerkleProofAfterLeaf (leafHash : Bytes) (bitpath : Clvm) : Clvm → Option Bytes
  | .atom [] => some leafHash
  | .atom (_ :: _) => none
  | .pair sibling hashesPath => do
      let p ← bitpath.bytes?
      let parent ← if natFromBytes p % 2 = 1 then H.hashAtoms [.atom [2], sibling, .atom leafHash]
        else H.hashAtoms [.atom [2], .atom leafHash, sibling]
      simplifyMerkleProofAfterLeaf parent (.ofInt (natFromBytes p / 2 : ℕ)) hashesPath

/-- `simplify_merkle_proof`. -/
def simplifyMerkleProof (leaf : Bytes) (proof : Clvm) : Option Bytes := do
  let leafHash ← H.hashAtoms [.atom [1], .atom leaf]
  let (bitpath, hashesPath) ← proof.uncons
  simplifyMerkleProofAfterLeaf H leafHash bitpath hashesPath

variable {H}

theorem simplifyMerkleProofAfterLeaf_eq (leafHash : Bytes) (bitpath hashesPath : Clvm) :
    simplifyMerkleProofAfterLeaf H leafHash bitpath hashesPath
      = H.simplifyMerkleProofAfterLeaf leafHash bitpath hashesPath := by
  induction hashesPath generalizing leafHash bitpath with
  | atom b => cases b <;> rfl
  | pair sibling hashesPath _ ih =>
      unfold simplifyMerkleProofAfterLeaf HashOracle.simplifyMerkleProofAfterLeaf
      cases bitpath with
      | pair _ _ => rfl
      | atom p =>
          by_cases hodd : natFromBytes p % 2 = 1
          · simp only [Clvm.bytes?, Option.bind_eq_bind, Option.bind_some, if_pos hodd, ih]
            rfl
          · simp only [Clvm.bytes?, Option.bind_eq_bind, Option.bind_some, if_neg hodd, ih]
            rfl

theorem simplifyMerkleProof_eq (leaf : Bytes) (proof : Clvm) :
    simplifyMerkleProof H leaf proof = H.simplifyMerkleProof leaf proof := by
  unfold simplifyMerkleProof HashOracle.simplifyMerkleProof
  simp only [simplifyMerkleProofAfterLeaf_eq]
  rfl

end

end SlotMachine.Chialisp
