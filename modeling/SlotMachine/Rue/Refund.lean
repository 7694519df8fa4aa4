import SlotMachine.Catalog.Refund
import SlotMachine.Rue.Catalog
import SlotMachine.Rue.Xchandles
import SlotMachine.Xchandles.Refund

/-!
# The refunds on arbitrary trees

* `Xchandles.refund`, `Catalog.refund` — the Rue actions, with constants that are trees.
* `Xchandles.refund_ofConstants`, `Catalog.refund_ofConstants` — on hashes they are those of
  the registries.
-/

namespace SlotMachine.Rue

/-! ## XCHandles -/

namespace Xchandles

open SlotMachine.Xchandles

/-- The slot of the handle is live, and not expired. -/
def keepSlot (H : HashOracle) (K : ConstantTrees) : Clvm → Option (List Condition)
  | .pair counter (.pair a (.pair expiration data)) => do
      let spend ← spendSlotOf H K.handleSlot1stCurryHash
        (.pair counter (.pair a (.pair expiration data)))
      let next ← counter.increment
      let create ← createSlotOf H K.handleSlot1stCurryHash
        (.pair next (.pair a (.pair expiration data)))
      return [.assertBeforeSecondsAbsolute expiration, spend, create]
  | _ => none

/-- `last_conds`. -/
def lastConditions (H : HashOracle) (K : ConstantTrees) (valid : Bool) (slotValue : Clvm) :
    Option (List Condition) :=
  if valid then keepSlot H K slotValue else some []

/-- `refund.rue`. -/
def refund (M : Machine) (K : ConstantTrees) (truth solution : Clvm) :
    Option (Clvm × List Condition) := do
  let t ← XchandlesStateTruth.ofClvm? truth
  let s ← RefundSolution.ofClvm? solution
  let correctSlot ← slotIsOfHandle M.hash s.handle s.slotValue
  let catMakerHash ← M.hash.treeHash s.catMaker.puzzle
  let catMakerMatches ← s.catMaker.puzzleHash.eq (.atom catMakerHash)
  let pricingHash ← M.hash.treeHash s.pricing.puzzle
  let pricingMatches ← s.pricing.puzzleHash.eq (.atom pricingHash)
  assertThat (catMakerMatches && pricingMatches && correctSlot)
  let inner ← precommitInnerPuzzleHash M.hash K s.refundPuzzleHashHash s.precommitValue
  let precommitCoin ← runCatMaker M s.catMaker.puzzle inner s.catMaker.solution
  let priced ← runPricing M s.pricing.puzzle s.pricing.solution.toClvm
  let valid ← looksValid t.state s priced.totalPrice
  let last ← lastConditions M.hash K valid s.slotValue
  return (truth, refundConditions precommitCoin s.precommitAmount last)

theorem refund_ofConstants (M : Machine) (K : Constants) (truth solution : Clvm) :
    refund M (.ofConstants K) truth solution
      = SlotMachine.Xchandles.refund M K truth solution := rfl

end Xchandles

/-! ## CATalog -/

namespace Catalog

open SlotMachine.Catalog

/-- The slot of the TAIL, if the coin looks valid. -/
def slotConditions (H : HashOracle) (K : ConstantTrees) (valid : Bool) (s : RefundSolution) :
    Option (List Condition) :=
  if valid then do
    let (neighbors, counter) ← s.neighborsAndCounter.uncons
    let spend ← spendSlotOf H K.slot1stCurryHash (s.slot neighbors counter)
    let next ← counter.increment
    let create ← createSlotOf H K.slot1stCurryHash (s.slot neighbors next)
    return [spend, create]
  else some []

/-- `refund.rue`. -/
def refund (M : Machine) (K : ConstantTrees) (truth solution : Clvm) :
    Option (Clvm × List Condition) := do
  let t ← CatalogStateTruth.ofClvm? truth
  let s ← RefundSolution.ofClvm? solution
  let catMakerHash ← M.hash.treeHash s.catMaker.puzzle
  let precommit ← precommitPuzzleHash M K s.catMaker.puzzle (s.opening catMakerHash)
  let announced ← M.hash.treeHash (.pair s.other.tailHash s.other.initialNftOwnerPh)
  let valid ← looksValid t.state s.precommitAmount catMakerHash
  let slot ← slotConditions M.hash K valid s
  return (truth, refundConditions slot announced precommit s.precommitAmount)

theorem refund_ofConstants (M : Machine) (K : Constants) (truth solution : Clvm) :
    refund M (.ofConstants K) truth solution
      = SlotMachine.Catalog.refund M K truth solution := rfl

end Catalog

end SlotMachine.Rue
