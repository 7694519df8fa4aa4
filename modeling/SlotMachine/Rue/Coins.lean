import SlotMachine.Puzzles.Precommit
import SlotMachine.Puzzles.StateScheduler
import SlotMachine.Rue.Library

/-!
# The puzzles of coins on arbitrary trees

* `slot`, `precommit`, `stateScheduler` — the puzzles of the coins around a registry, with
  whatever is curried into them.
* `defaultCatMaker`, `revocableCatMaker` — the CAT makers, on their whole solutions.
* `slot_atom` and its like — on hashes they are the puzzles of the registries.
-/

namespace SlotMachine.Rue

section

variable (H : HashOracle)

/-- `singleton_full_puzzle_hash`, for a pair of the module and the hash of the struct. -/
def singletonFullPuzzleHash (controllerSingletonInfo innerPuzzleHash : Clvm) : Option Bytes := do
  let (singletonModHash, singletonStructHash) ← controllerSingletonInfo.uncons
  H.curryTreeHash singletonModHash [singletonStructHash, innerPuzzleHash]

/-- `main` of `slot.rue`; the nonce and the value are there to be committed to. -/
def slot (controllerSingletonInfo solution : Clvm) : Option (List Condition) := do
  let (parentProof, spenderInnerPuzzleHash) ← solution.uncons
  let (parentInfo, proof) ← parentProof.uncons
  let (innerPuzzleHash, amount) ← proof.uncons
  let parent ← singletonFullPuzzleHash H controllerSingletonInfo innerPuzzleHash
  let parentId ← H.coinid parentInfo (.atom parent) amount
  let spender ← singletonFullPuzzleHash H controllerSingletonInfo spenderInnerPuzzleHash
  return [.assertMyParentId (.atom parentId), .receiveMessage puzzlePuzzle .nil [.atom spender]]

/-- What is curried into a precommit coin, apart from its value. -/
structure PrecommitCurried where
  singletonModHash : Clvm
  singletonStructHash : Clvm
  relativeBlockHeight : Clvm
  payoutPuzzleHash : Clvm
  refundPuzzleHash : Clvm

/-- `destination_puzzle_hash`. -/
def PrecommitCurried.destination (c : PrecommitCurried) (spendMode : Clvm) : Clvm :=
  if spendMode.truthy then c.payoutPuzzleHash else c.refundPuzzleHash

/-- `main` of `precommit.rue`. -/
def precommit (c : PrecommitCurried) (solution : Clvm) : Option (List Condition) := do
  let (spendMode, rest) ← solution.uncons
  let (myAmount, singletonInnerPuzzleHash) ← rest.uncons
  let sender ← H.curryTreeHash c.singletonModHash
    [c.singletonStructHash, singletonInnerPuzzleHash]
  return [.assertHeightRelative c.relativeBlockHeight,
    .assertMyAmount myAmount,
    .createCoin (c.destination spendMode) myAmount [c.destination spendMode],
    .receiveMessage puzzlePuzzleAmount spendMode [.atom sender]]

/-- `main` of `default_cat_maker.rue`. -/
def defaultCatMaker (catModHash tailHashHash solution : Clvm) : Option Bytes := do
  let (innerPuzzleHash, _) ← solution.uncons
  let catMod ← H.treeHashAtom catModHash
  H.curryTreeHash catModHash [.atom catMod, tailHashHash, innerPuzzleHash]

/-- `main` of `revocable_cat_maker.rue`. -/
def revocableCatMaker (revocableCatStruct tailHashHash solution : Clvm) : Option Bytes := do
  let (catModHash, layer) ← revocableCatStruct.uncons
  let (revocationLayerModHash, hiddenPuzzleHashHash) ← layer.uncons
  let (innerPuzzleHash, _) ← solution.uncons
  let catMod ← H.treeHashAtom catModHash
  let layerMod ← H.treeHashAtom revocationLayerModHash
  let inner ← H.treeHashAtom innerPuzzleHash
  let layerHash ← H.curryTreeHash revocationLayerModHash
    [.atom layerMod, hiddenPuzzleHashHash, .atom inner]
  H.curryTreeHash catModHash [.atom catMod, tailHashHash, .atom layerHash]

end

/-- `main` of `state_scheduler.rue`. -/
def stateScheduler (M : Machine) (singletonModHash receiverSingletonStructHash message innerPuzzle
    solution : Clvm) : Option Clvm := do
  let (otherSingletonInnerPuzzleHash, innerSolution) ← solution.uncons
  let receiver ← M.hash.curryTreeHash singletonModHash
    [receiverSingletonStructHash, otherSingletonInnerPuzzleHash]
  let conditions ← M.eval innerPuzzle innerSolution
  return .pair (Condition.sendMessage puzzlePuzzle message [.atom receiver]).toClvm conditions

/-! ## On hashes -/

theorem slot_atom (H : HashOracle) (singletonModHash singletonStructHash : Bytes) (solution : Clvm) :
    slot H (.pair (.atom singletonModHash) (.atom singletonStructHash)) solution
      = H.slotMain singletonModHash singletonStructHash solution := by
  match solution with
  | .atom _ => rfl
  | .pair (.atom _) _ => rfl
  | .pair (.pair _ (.atom _)) _ => rfl
  | .pair (.pair _ (.pair _ _)) _ => rfl

theorem precommit_atom (H : HashOracle) (singletonModHash singletonStructHash : Bytes)
    (relativeBlockHeight : ℤ) (payoutPuzzleHash refundPuzzleHash : Bytes) (solution : Clvm) :
    precommit H ⟨.atom singletonModHash, .atom singletonStructHash, .ofInt relativeBlockHeight,
        .atom payoutPuzzleHash, .atom refundPuzzleHash⟩ solution
      = precommitMain H singletonModHash singletonStructHash relativeBlockHeight payoutPuzzleHash
        refundPuzzleHash solution := by
  match solution with
  | .atom _ => rfl
  | .pair _ (.atom _) => rfl
  | .pair spendMode (.pair _ _) =>
      have hdestination : ∀ s : Bytes, PrecommitCurried.destination ⟨.atom singletonModHash, .atom s,
          .ofInt relativeBlockHeight, .atom payoutPuzzleHash, .atom refundPuzzleHash⟩ spendMode
          = .atom (if spendMode.truthy then payoutPuzzleHash else refundPuzzleHash) := by
        intro s
        exact (apply_ite Clvm.atom ..).symm
      simp only [precommit, precommitMain, Clvm.uncons, Option.bind_eq_bind, Option.bind_some,
        hdestination]

theorem defaultCatMaker_atom (H : HashOracle) (catModHash tailHashHash innerPuzzleHash : Bytes)
    (rest : Clvm) :
    defaultCatMaker H (.atom catModHash) (.atom tailHashHash) (.pair (.atom innerPuzzleHash) rest)
      = SlotMachine.defaultCatMaker H catModHash tailHashHash innerPuzzleHash := rfl

theorem revocableCatMaker_atom (H : HashOracle) (s : RevocableCatStruct)
    (tailHashHash innerPuzzleHash : Bytes) (rest : Clvm) :
    revocableCatMaker H (.pair (.atom s.catModHash)
        (.pair (.atom s.revocationLayerModHash) (.atom s.hiddenPuzzleHashHash)))
        (.atom tailHashHash) (.pair (.atom innerPuzzleHash) rest)
      = SlotMachine.revocableCatMaker H s tailHashHash innerPuzzleHash := rfl

theorem stateScheduler_atom (M : Machine) (c : StateScheduler.Curried) (solution : Clvm) :
    stateScheduler M (.atom c.singletonModHash) (.atom c.receiverSingletonStructHash) c.message
        c.innerPuzzle solution
      = StateScheduler.main M c solution := rfl

end SlotMachine.Rue
