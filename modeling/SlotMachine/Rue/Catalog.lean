import SlotMachine.Catalog.Register
import SlotMachine.Rue.Library

/-!
# The registration of CATalog on arbitrary trees

* `register` — the Rue action, with constants that are trees.
* `register_ofConstants` — on hashes it is that of the registry.
-/

namespace SlotMachine.Rue.Catalog

open SlotMachine.Catalog

/-- The constants the action is curried with. -/
structure ConstantTrees where
  nftPack : Clvm
  uniquenessPrelauncher1stCurryHash : Clvm
  precommit1stCurryHash : Clvm
  slot1stCurryHash : Clvm

/-- A pack of hashes as a tree. -/
def packToClvm (P : NftPack) : Clvm :=
  .pair (.pair (.pair (.atom P.launcherModHash) (.atom P.singletonModHash))
      (.pair (.atom P.nftStateLayerModHash) (.atom P.metadataUpdaterHashHash)))
    (.pair (.pair (.atom P.nftOwnershipModHash) (.atom P.transferProgramModHash))
      (.pair (.atom P.royaltyAddressHash) (.atom P.tradePricePercentage)))

/-- The constants of a registry as trees. -/
def ConstantTrees.ofConstants (K : Constants) : ConstantTrees where
  nftPack := packToClvm K.nftPack
  uniquenessPrelauncher1stCurryHash := .atom K.uniquenessPrelauncher1stCurryHash
  precommit1stCurryHash := .atom K.precommit1stCurryHash
  slot1stCurryHash := .atom K.slot1stCurryHash

/-- `precommit_inner_puzzle_hash`. -/
def precommitInnerPuzzleHash (H : HashOracle) (K : ConstantTrees) (o : Opening) :
    Option Bytes := do
  let v ← precommitValueHash H o
  H.curryTreeHash K.precommit1stCurryHash [o.data.refundPuzzleHashHash, .atom v]

/-- `precommit_puzzle_hash`. -/
def precommitPuzzleHash (M : Machine) (K : ConstantTrees) (maker : Clvm) (o : Opening) :
    Option Clvm := do
  let inner ← precommitInnerPuzzleHash M.hash K o
  M.eval maker (.pair (.atom inner) o.catMakerSolution)

/-- `register.rue`. -/
def register (M : Machine) (K : ConstantTrees) (truth solution : Clvm) :
    Option (Clvm × List Condition) := do
  let t ← CatalogStateTruth.ofClvm? truth
  let s ← RegisterSolution.ofClvm? solution
  let aboveLeft ← s.other.tailHash.gtBytes s.left.tailHash
  let belowRight ← s.right.tailHash.gtBytes s.other.tailHash
  let catMakerHash ← M.hash.treeHash s.catMaker.puzzle
  let catMakerMatches ← (Clvm.atom catMakerHash).eq t.state.catMakerPuzzleHash
  assertThat (aboveLeft && belowRight && catMakerMatches)
  let prelauncher ← uniquenessPrelauncherPuzzleHash M.hash K.uniquenessPrelauncher1stCurryHash
    s.other.tailHash
  let prelauncherId ← M.hash.coinid s.myId (.atom prelauncher) .nil
  let pack ← NftPackTree.ofClvm? K.nftPack
  let launcherId ← M.hash.coinid (.atom prelauncherId) pack.launcherModHash (.atom [1])
  let precommit ← precommitPuzzleHash M K s.catMaker.puzzle (s.opening t.state)
  let nft ← secureNft M.hash pack s.other.initialNftOwnerPh (.atom launcherId)
  let announced ← M.hash.treeHash (.pair s.other.tailHash s.other.initialNftOwnerPh)
  let spendLeft ← spendSlotOf M.hash K.slot1stCurryHash
    (s.leftSlot s.left.counter s.right.tailHash)
  let spendRight ← spendSlotOf M.hash K.slot1stCurryHash
    (s.rightSlot s.right.counter s.left.tailHash)
  let createNew ← createSlotOf M.hash K.slot1stCurryHash s.newSlot
  let leftCounter ← s.left.counter.increment
  let createLeft ← createSlotOf M.hash K.slot1stCurryHash (s.leftSlot leftCounter s.other.tailHash)
  let rightCounter ← s.right.counter.increment
  let createRight ← createSlotOf M.hash K.slot1stCurryHash
    (s.rightSlot rightCounter s.other.tailHash)
  return (truth, registerConditions prelauncher nft s.myId announced spendLeft spendRight createNew
    createLeft createRight precommit t.state.registrationPrice)

/-! ## On hashes -/

theorem register_ofConstants (M : Machine) (K : Constants) (truth solution : Clvm) :
    register M (.ofConstants K) truth solution
      = SlotMachine.Catalog.register M K truth solution := rfl

end SlotMachine.Rue.Catalog
