import SlotMachine.Rue.Library
import SlotMachine.Xchandles.Expire
import SlotMachine.Xchandles.Extend
import SlotMachine.Xchandles.Register
import SlotMachine.Xchandles.Update

/-!
# The actions of XCHandles on arbitrary trees

* `register`, `expire`, `extend`, `oracle`, `initiateUpdate`, `executeUpdate` — the Rue
  actions, with constants that are trees.
* `register_ofConstants` and its like — on hashes they are those of the registry.
-/

namespace SlotMachine.Rue.Xchandles

open SlotMachine.Xchandles

/-- The constants the actions of a registry are curried with. -/
structure ConstantTrees where
  singletonModHash : Clvm
  singletonLauncherPuzzleHash : Clvm
  precommit1stCurryHash : Clvm
  handleSlot1stCurryHash : Clvm
  updateSlot1stCurryHash : Clvm
  offerModHash : Clvm
  payoutPuzzleHash : Clvm
  relativeBlockHeight : Clvm

/-- The constants of a registry as trees. -/
def ConstantTrees.ofConstants (K : Constants) : ConstantTrees where
  singletonModHash := .atom K.singletonModHash
  singletonLauncherPuzzleHash := .atom K.singletonLauncherPuzzleHash
  precommit1stCurryHash := .atom K.precommit1stCurryHash
  handleSlot1stCurryHash := .atom K.handleSlot1stCurryHash
  updateSlot1stCurryHash := .atom K.updateSlot1stCurryHash
  offerModHash := .atom K.offerModHash
  payoutPuzzleHash := .atom K.payoutPuzzleHash
  relativeBlockHeight := .ofInt K.relativeBlockHeight

section

variable (H : HashOracle) (K : ConstantTrees)

/-- `singleton_puzzle_hash`, with the constants of the registry. -/
def singletonPuzzleHash (launcherId innerPuzzleHash : Clvm) : Option Bytes :=
  Rue.singletonPuzzleHash H K.singletonModHash K.singletonLauncherPuzzleHash launcherId
    innerPuzzleHash

/-- The puzzle hash of the precommit puzzle with its value curried in. -/
def precommitInnerPuzzleHash (refundPuzzleHashHash : Clvm) (value : PrecommitValue) :
    Option Bytes := do
  let v ← H.treeHash value.toClvm
  let vh ← H.treeHashAtom (.atom v)
  H.curryTreeHash K.precommit1stCurryHash [refundPuzzleHashHash, .atom vh]

/-- The coin of a singleton with the given launcher id, from its proof. -/
def ownerCoinId (launcherId : Clvm) (proof : CompactCoinProof) : Option Bytes := do
  let ph ← singletonPuzzleHash H K launcherId proof.innerPuzzleHash
  H.coinid proof.parentInfo (.atom ph) proof.amount

/-- The notarized payment an extension asks for. -/
def extendPayment (nonce : Bytes) (totalPrice : Clvm) : Clvm :=
  .pair (.atom nonce)
    (.pair (.pair K.payoutPuzzleHash
      (.pair totalPrice (.pair (.pair K.payoutPuzzleHash .nil) .nil))) .nil)

/-- The approval of the resolved singleton, which is needed unless it is the owner. -/
def expireResolvedApproval (data : HandleSlotData) (innerPuzzleHash : Clvm)
    (precommitCoin : Bytes) : Option (List Condition) := do
  let same ← data.ownerLauncherId.eq data.resolvedLauncherId
  if same then return []
  else do
    let resolved ← singletonPuzzleHash H K data.resolvedLauncherId innerPuzzleHash
    return [.receiveMessage puzzlePuzzle (.tagged 'f' precommitCoin) [.atom resolved]]

end

variable (M : Machine) (K : ConstantTrees)

/-- `register.rue`. -/
def register (truth solution : Clvm) : Option (Clvm × List Condition) := do
  let t ← XchandlesStateTruth.ofClvm? truth
  let s ← RegisterSolution.ofClvm? solution
  let pricing := s.handlePricing.solution
  let priced ← runPricing M s.handlePricing.puzzle pricing.toClvm
  let hashOfHandle ← M.hash.treeHashAtom pricing.handle
  let catMakerHash ← M.hash.treeHash s.catMaker.puzzle
  let pricingHash ← M.hash.treeHash s.handlePricing.puzzle
  let handleMatches ← s.handleHash.eq (.atom hashOfHandle)
  let aboveLeft ← s.handleHash.gtBytes s.leftValue
  let belowRight ← s.rightValue.gtBytes s.handleHash
  let catMakerMatches ← t.state.catMakerPuzzleHash.eq (.atom catMakerHash)
  let pricingMatches ← t.state.pricingPuzzleHash.eq (.atom pricingHash)
  assertThat (handleMatches && !pricing.currentExpiration.truthy && aboveLeft && belowRight
    && catMakerMatches && pricingMatches)
  let inner ← precommitInnerPuzzleHash M.hash K s.other.refundPuzzleHashHash
    (s.precommitValue t.state)
  let precommitCoin ← runCatMaker M s.catMaker.puzzle inner s.catMaker.solution
  let owner ← singletonPuzzleHash M.hash K s.other.newRest.ownerLauncherId s.ownerInnerPuzzleHash
  let resolved ← singletonPuzzleHash M.hash K s.other.newRest.resolvedLauncherId
    s.resolvedInnerPuzzleHash
  let spendLeft ← spendSlotOf M.hash K.handleSlot1stCurryHash
    (s.leftSlot s.left.thisCounter s.rightValue)
  let spendRight ← spendSlotOf M.hash K.handleSlot1stCurryHash
    (s.rightSlot s.right.thisCounter s.leftValue)
  let expiration ← pricing.buyTime.add priced.registeredTime
  let createNew ← createSlotOf M.hash K.handleSlot1stCurryHash (s.newSlot expiration)
  let leftCounter ← s.left.thisCounter.increment
  let createLeft ← createSlotOf M.hash K.handleSlot1stCurryHash
    (s.leftSlot leftCounter s.handleHash)
  let rightCounter ← s.right.thisCounter.increment
  let createRight ← createSlotOf M.hash K.handleSlot1stCurryHash
    (s.rightSlot rightCounter s.handleHash)
  return (truth, registerConditions pricing.buyTime spendLeft spendRight createNew createLeft
    createRight precommitCoin priced.totalPrice owner resolved)

/-- `expire.rue`. -/
def expire (truth solution : Clvm) : Option (Clvm × List Condition) := do
  let t ← XchandlesStateTruth.ofClvm? truth
  let s ← ExpireSolution.ofClvm? solution
  let pricing := s.pricing.solution
  let catMakerHash ← M.hash.treeHash s.catMaker.puzzle
  let catMakerMatches ← (Clvm.atom catMakerHash).eq t.state.catMakerPuzzleHash
  let pricingHash ← M.hash.treeHash s.pricing.puzzle
  let pricingMatches ← (Clvm.atom pricingHash).eq t.state.expiredHandlePricingPuzzleHash
  assertThat (catMakerMatches && pricingMatches)
  let handleHash ← M.hash.treeHashAtom pricing.handle
  let priced ← runPricing M s.pricing.puzzle pricing.toClvm
  let inner ← precommitInnerPuzzleHash M.hash K s.other.refundPuzzleHashHash
    (s.precommitValue t.state)
  let precommitCoin ← runCatMaker M s.catMaker.puzzle inner s.catMaker.solution
  let owner ← singletonPuzzleHash M.hash K s.other.newRest.ownerLauncherId
    s.newOwnerInnerPuzzleHash
  let spend ← spendSlotOf M.hash K.handleSlot1stCurryHash
    (s.slot handleHash s.counter pricing.currentExpiration s.oldRest)
  let counter ← s.counter.increment
  let expiration ← priced.registeredTime.add pricing.buyTime
  let create ← createSlotOf M.hash K.handleSlot1stCurryHash
    (s.slot handleHash counter expiration s.other.newRest.toClvm)
  let resolvedApproval ← expireResolvedApproval M.hash K s.other.newRest
    s.newResolvedInnerPuzzleHash precommitCoin
  return (truth, expireConditions resolvedApproval pricing.buyTime pricing.currentExpiration spend
    create precommitCoin priced.totalPrice owner)

/-- `extend.rue`. -/
def extend (truth solution : Clvm) : Option (Clvm × List Condition) := do
  let t ← XchandlesStateTruth.ofClvm? truth
  let s ← ExtendSolution.ofClvm? solution
  let pricing := s.handlePricing.solution
  let priced ← runPricing M s.handlePricing.puzzle pricing.toClvm
  let handleHash ← M.hash.treeHashAtom pricing.handle
  let offer ← runCatMakerOn M s.catMaker.puzzle K.offerModHash s.catMaker.solution
  let catMakerHash ← M.hash.treeHash s.catMaker.puzzle
  let catMakerMatches ← (Clvm.atom catMakerHash).eq t.state.catMakerPuzzleHash
  let pricingHash ← M.hash.treeHash s.handlePricing.puzzle
  let pricingMatches ← (Clvm.atom pricingHash).eq t.state.pricingPuzzleHash
  assertThat (catMakerMatches && pricingMatches)
  let spend ← spendSlotOf M.hash K.handleSlot1stCurryHash
    (s.slot handleHash s.counter pricing.currentExpiration)
  let announcement ← M.hash.treeHash (.pair priced.totalPrice pricing.handle)
  let counter ← s.counter.increment
  let expiration ← pricing.currentExpiration.add priced.registeredTime
  let create ← createSlotOf M.hash K.handleSlot1stCurryHash (s.slot handleHash counter expiration)
  let nonce ← M.hash.treeHash (.pair pricing.handle pricing.currentExpiration)
  let notarized ← M.hash.treeHash (extendPayment K nonce priced.totalPrice)
  let payment ← M.hash.hashAtoms [.atom offer, .atom notarized]
  return (truth, extendConditions spend create announcement pricing.currentExpiration
    pricing.buyTime payment)

/-- `oracle.rue`. -/
def oracle (truth solution : Clvm) : Option (Clvm × List Condition) := do
  let (counter, ab) ← solution.uncons
  let spentSlotValueHash ← M.hash.treeHash solution
  let spend ← spendSlotOf M.hash K.handleSlot1stCurryHash solution
  let next ← counter.increment
  let create ← createSlotOf M.hash K.handleSlot1stCurryHash (.pair next ab)
  return (truth, [spend, create, .createPuzzleAnnouncement (.tagged 'o' spentSlotValueHash)])

/-- `initiate_update.rue`. -/
def initiateUpdate (truth solution : Clvm) : Option (Clvm × List Condition) := do
  let s ← InitiateSolution.ofClvm? solution
  let initiatorCoinId ← ownerCoinId M.hash K s.currentSlot.ownerLauncherId s.currentOwnerProof
  let minExecutionHeight ← s.minHeight.add K.relativeBlockHeight
  let slotValueHash ← M.hash.treeHash (updateSlotValue (.atom initiatorCoinId) minExecutionHeight
    s.currentSlot.handleHash s.newData)
  let spend ← spendSlotOf M.hash K.handleSlot1stCurryHash s.currentSlot.toClvm
  let counter ← s.currentSlot.counter.increment
  let create ← createSlotOf M.hash K.handleSlot1stCurryHash (s.currentSlot.update counter
    (.pair s.currentSlot.ownerLauncherId s.currentSlot.resolvedLauncherId))
  let createUpdate ← createSlotWithHint M.hash K.updateSlot1stCurryHash slotValueHash
    (.atom initiatorCoinId)
  return (truth, [
    -- can't update if expired
    .assertBeforeSecondsAbsolute s.currentSlot.expiration,
    -- the minimum height is in the future
    .assertBeforeHeightAbsolute s.minHeight,
    spend,
    create,
    .receiveMessage coinPuzzle (.tagged 'i' slotValueHash) [.atom initiatorCoinId],
    createUpdate])

/-- `execute_update.rue`. -/
def executeUpdate (truth solution : Clvm) : Option (Clvm × List Condition) := do
  let s ← ExecuteSolution.ofClvm? solution
  let slotValueHash ← M.hash.treeHash (updateSlotValue s.currentOwnerProof.parentInfo
    s.minExecutionHeight s.currentSlot.handleHash s.newData.toClvm)
  let ownerId ← ownerCoinId M.hash K s.currentSlot.ownerLauncherId s.currentOwnerProof
  let newOwner ← singletonPuzzleHash M.hash K s.newData.ownerLauncherId s.newOwnerInnerPuzzleHash
  let newResolved ← singletonPuzzleHash M.hash K s.newData.resolvedLauncherId
    s.newResolvedInnerPuzzleHash
  let spend ← spendSlotOf M.hash K.handleSlot1stCurryHash s.currentSlot.toClvm
  let counter ← s.currentSlot.counter.increment
  let create ← createSlotOf M.hash K.handleSlot1stCurryHash
    (s.currentSlot.update counter s.newData.toClvm)
  let spendUpdate ← spendSlot M.hash K.updateSlot1stCurryHash slotValueHash
  return (truth, [
    -- can't update if expired
    .assertBeforeSecondsAbsolute s.currentSlot.expiration,
    -- the minimum execution height has passed
    .assertHeightAbsolute s.minExecutionHeight,
    spend,
    create,
    .receiveMessage coinPuzzle (.tagged 'u' slotValueHash) [.atom ownerId],
    .receiveMessage puzzlePuzzle (.tagged 'o' slotValueHash) [.atom newOwner],
    .receiveMessage puzzlePuzzle (.tagged 'r' slotValueHash) [.atom newResolved],
    spendUpdate])

/-! ## On hashes -/

variable {M} {truth solution : Clvm}

theorem register_ofConstants (K : Constants) :
    register M (.ofConstants K) truth solution = SlotMachine.Xchandles.register M K truth solution :=
  rfl

theorem expire_ofConstants (K : Constants) :
    expire M (.ofConstants K) truth solution = SlotMachine.Xchandles.expire M K truth solution :=
  rfl

theorem extend_ofConstants (K : Constants) :
    extend M (.ofConstants K) truth solution = SlotMachine.Xchandles.extend M K truth solution :=
  rfl

theorem oracle_ofConstants (K : Constants) :
    oracle M (.ofConstants K) truth solution = SlotMachine.Xchandles.oracle M K truth solution :=
  rfl

theorem initiateUpdate_ofConstants (K : Constants) :
    initiateUpdate M (.ofConstants K) truth solution
      = SlotMachine.Xchandles.initiateUpdate M K truth solution := rfl

theorem executeUpdate_ofConstants (K : Constants) :
    executeUpdate M (.ofConstants K) truth solution
      = SlotMachine.Xchandles.executeUpdate M K truth solution := rfl

end SlotMachine.Rue.Xchandles
