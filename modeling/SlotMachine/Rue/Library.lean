import SlotMachine.Puzzles.CatMaker
import SlotMachine.Puzzles.DelegatedState
import SlotMachine.Puzzles.NftPack

/-!
# The Rue libraries on arbitrary trees

What a puzzle is curried with are hashes when a registry is launched, but nothing
in a puzzle checks this.  This file and the ones beside it have the puzzles on
constants that are arbitrary trees; on hashes they are those of the other files.

* `spendSlot`, `createSlot`, `createSlotWithHint` (`slot.rue`).
* `singletonPuzzleHash` (`xchandles.rue`).
* `NftPackTree`, `secureNft` (`nft_pack.rue`).
-/

namespace SlotMachine.Rue

variable (H : HashOracle)

/-- `get_slot_puzzle_hash`. -/
def getSlotPuzzleHash (slot1stCurryHash : Clvm) (slotValueHash : Bytes) : Option Bytes := do
  let v ← H.treeHashAtom (.atom slotValueHash)
  H.curryTreeHash slot1stCurryHash [.atom v]

/-- `spend_slot`. -/
def spendSlot (slot1stCurryHash : Clvm) (slotValueHash : Bytes) : Option Condition := do
  let ph ← getSlotPuzzleHash H slot1stCurryHash slotValueHash
  return .sendMessage puzzlePuzzle .nil [.atom ph]

/-- `create_slot_with_hint`. -/
def createSlotWithHint (slot1stCurryHash : Clvm) (slotValueHash : Bytes) (hint : Clvm) :
    Option Condition := do
  let ph ← getSlotPuzzleHash H slot1stCurryHash slotValueHash
  return .createCoin (.atom ph) .nil [hint]

/-- `create_slot`. -/
def createSlot (slot1stCurryHash : Clvm) (slotValueHash : Bytes) : Option Condition :=
  createSlotWithHint H slot1stCurryHash slotValueHash slot1stCurryHash

/-- `spend_slot(…, tree_hash(value))`. -/
def spendSlotOf (slot1stCurryHash value : Clvm) : Option Condition := do
  let d ← H.treeHash value
  spendSlot H slot1stCurryHash d

/-- `create_slot(…, tree_hash(value))`. -/
def createSlotOf (slot1stCurryHash value : Clvm) : Option Condition := do
  let d ← H.treeHash value
  createSlot H slot1stCurryHash d

/-- `singleton_puzzle_hash`. -/
def singletonPuzzleHash (singletonModHash singletonLauncherPuzzleHash launcherId
    innerPuzzleHash : Clvm) : Option Bytes := do
  let struct ← H.treeHash
    (.pair singletonModHash (.pair launcherId singletonLauncherPuzzleHash))
  H.curryTreeHash singletonModHash [.atom struct, innerPuzzleHash]

/-- `cat_maker.puzzle(…)` on any tree, used as bytes. -/
def runCatMakerOn (M : Machine) (puzzle innerPuzzleHash solution : Clvm) : Option Bytes := do
  let out ← M.eval puzzle (.pair innerPuzzleHash solution)
  out.bytes?

/-- `NftPack`. -/
structure NftPackTree where
  launcherModHash : Clvm
  singletonModHash : Clvm
  nftStateLayerModHash : Clvm
  metadataUpdaterHashHash : Clvm
  nftOwnershipModHash : Clvm
  transferProgramModHash : Clvm
  royaltyAddressHash : Clvm
  tradePricePercentage : Clvm

/-- Take a pack apart; every part of it is used. -/
def NftPackTree.ofClvm? : Clvm → Option NftPackTree
  | .pair (.pair (.pair l s) (.pair n m)) (.pair (.pair o t) (.pair r p)) =>
      some ⟨l, s, n, m, o, t, r, p⟩
  | _ => none

/-- The puzzle hash of the first coin of an NFT: `full_puzzle_hash` in `secure_nft`. -/
def nftPuzzleHash (P : NftPackTree) (innerPuzzleHash launcherId : Clvm) : Option Bytes := do
  let struct ← H.treeHash (.pair P.singletonModHash (.pair launcherId P.launcherModHash))
  let ownershipMod ← H.treeHashAtom P.nftOwnershipModHash
  let nothing ← H.treeHashAtom .nil
  let percentage ← H.treeHashAtom P.tradePricePercentage
  let transferProgram ← H.curryTreeHash P.transferProgramModHash
    [.atom struct, P.royaltyAddressHash, .atom percentage]
  let ownershipLayer ← H.curryTreeHash P.nftOwnershipModHash
    [.atom ownershipMod, .atom nothing, .atom transferProgram, innerPuzzleHash]
  let stateLayerMod ← H.treeHashAtom P.nftStateLayerModHash
  let singletonInner ← H.curryTreeHash P.nftStateLayerModHash
    [.atom stateLayerMod, .atom nothing, P.metadataUpdaterHashHash, .atom ownershipLayer]
  H.curryTreeHash P.singletonModHash [.atom struct, .atom singletonInner]

/-- The id of the first coin of an NFT. -/
def nftCoinId (P : NftPackTree) (innerPuzzleHash launcherId : Clvm) : Option Bytes := do
  let full ← nftPuzzleHash H P innerPuzzleHash launcherId
  H.coinid launcherId (.atom full) (.atom [1])

/-- `secure_nft`. -/
def secureNft (P : NftPackTree) (innerPuzzleHash launcherId : Clvm) : Option Condition := do
  let id ← nftCoinId H P innerPuzzleHash launcherId
  return .assertConcurrentSpend (.atom id)

/-- The puzzle hash of the uniqueness prelauncher of a value. -/
def uniquenessPrelauncherPuzzleHash (prelauncher1stCurryHash value : Clvm) : Option Bytes := do
  let v ← H.treeHashAtom value
  H.curryTreeHash prelauncher1stCurryHash [.atom v]

/-- `delegated_state.rue`. -/
def delegatedState (M : Machine) (singletonModHash otherSingletonStructHash truth solution : Clvm) :
    Option (Clvm × List Condition) := do
  let (ephemeralState, _) ← truth.uncons
  let (newState, otherSingletonInnerPuzzleHash) ← solution.uncons
  let stateHash ← M.hash.treeHash newState
  let sender ← M.hash.curryTreeHash singletonModHash
    [otherSingletonStructHash, otherSingletonInnerPuzzleHash]
  return (.pair ephemeralState newState,
    [.receiveMessage puzzlePuzzle (.tagged 's' stateHash) [.atom sender]])

/-! ## On hashes -/

variable {H}

@[simp] theorem spendSlotOf_atom (fc : Bytes) (value : Clvm) :
    spendSlotOf H (.atom fc) value = H.spendSlotOf fc value := rfl

@[simp] theorem createSlotOf_atom (fc : Bytes) (value : Clvm) :
    createSlotOf H (.atom fc) value = H.createSlotOf fc value := rfl

@[simp] theorem singletonPuzzleHash_atom (m l : Bytes) (i p : Clvm) :
    singletonPuzzleHash H (.atom m) (.atom l) i p = H.singletonPuzzleHash m l i p := rfl

theorem delegatedState_atom (M : Machine) (m other : Bytes) (truth solution : Clvm) :
    delegatedState M (.atom m) (.atom other) truth solution
      = SlotMachine.delegatedState M m other truth solution := rfl

/-- A pack of hashes as a tree. -/
def NftPackTree.ofPack (P : NftPack) : NftPackTree :=
  ⟨.atom P.launcherModHash, .atom P.singletonModHash, .atom P.nftStateLayerModHash,
    .atom P.metadataUpdaterHashHash, .atom P.nftOwnershipModHash, .atom P.transferProgramModHash,
    .atom P.royaltyAddressHash, .atom P.tradePricePercentage⟩

theorem secureNft_ofPack (P : NftPack) (i : Clvm) (l : Bytes) :
    secureNft H (.ofPack P) i (.atom l) = H.secureNft P i l := rfl

end SlotMachine.Rue
