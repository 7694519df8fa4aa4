import SlotMachine.Chialisp.Xchandles
import SlotMachine.Rue.Coins
import SlotMachine.Singleton.Reserve

/-!
# The Chialisp puzzles of coins

* `slot`, `precommit`, `stateScheduler`, `p2DelegatedBySingleton` — the puzzles under
  `puzzles/singleton`.
* `defaultCatMaker`, `revocableCatMaker` — the CAT makers under `puzzles/default_puzzles`.
* `coins_agree` — **each of them computes what the Rue puzzle computes**, with SHA-256.
-/

namespace SlotMachine.Chialisp

section

variable (H : HashOracle)

/-- `singleton_full_puzzle_hash`. -/
def singletonFullPuzzleHash (controllerSingletonInfo innerPuzzleHash : Clvm) : Option Bytes := do
  let (singletonModHash, singletonStructHash) ← controllerSingletonInfo.uncons
  curryHashes H singletonModHash [singletonStructHash, innerPuzzleHash]

/-- `slot.clsp`. -/
def slot (controllerSingletonInfo solution : Clvm) : Option (List Clvm) := do
  let (parentProof, spenderInnerPuzzleHash) ← solution.uncons
  let (parentInfo, proof) ← parentProof.uncons
  let (innerPuzzleHash, amount) ← proof.uncons
  let parent ← singletonFullPuzzleHash H controllerSingletonInfo innerPuzzleHash
  let parentId ← H.coinid parentInfo (.atom parent) amount
  let spender ← singletonFullPuzzleHash H controllerSingletonInfo spenderInnerPuzzleHash
  return [.ofList [.atom [71], .atom parentId],
    .ofList [.atom [67], .atom [18], .nil, .atom spender]]

/-- `precommit.clsp`. -/
def precommit (c : Rue.PrecommitCurried) (solution : Clvm) : Option (List Clvm) := do
  let (spendMode, rest) ← solution.uncons
  let (myAmount, singletonInnerPuzzleHash) ← rest.uncons
  let destination := if spendMode.truthy then c.payoutPuzzleHash else c.refundPuzzleHash
  let sender ← curryHashes H c.singletonModHash [c.singletonStructHash, singletonInnerPuzzleHash]
  return [.ofList [.atom [82], c.relativeBlockHeight],
    .ofList [.atom [73], myAmount],
    .ofList [.atom [51], destination, myAmount, .ofList [destination]],
    .ofList [.atom [67], .atom [19], spendMode, .atom sender]]

/-- `default_cat_maker.clsp`. -/
def defaultCatMaker (catModHash tailHashHash solution : Clvm) : Option Bytes := do
  let innerPuzzleHash ← solution.first
  let catMod ← H.hashAtoms [.atom [1], catModHash]
  curryHashes H catModHash [.atom catMod, tailHashHash, innerPuzzleHash]

/-- `revocable_cat_maker.clsp`. -/
def revocableCatMaker (revocableCatStruct tailHashHash solution : Clvm) : Option Bytes := do
  let (catModHash, layer) ← revocableCatStruct.uncons
  let (revocationLayerModHash, hiddenPuzzleHashHash) ← layer.uncons
  let innerPuzzleHash ← solution.first
  let catMod ← H.hashAtoms [.atom [1], catModHash]
  let layerMod ← H.hashAtoms [.atom [1], revocationLayerModHash]
  let inner ← H.hashAtoms [.atom [1], innerPuzzleHash]
  let layerHash ← curryHashes H revocationLayerModHash
    [.atom layerMod, hiddenPuzzleHashHash, .atom inner]
  curryHashes H catModHash [.atom catMod, tailHashHash, .atom layerHash]

end

/-- `state_scheduler.clsp`. -/
def stateScheduler (M : Machine) (singletonModHash receiverSingletonStructHash message innerPuzzle
    solution : Clvm) : Option Clvm := do
  let (otherSingletonInnerPuzzleHash, innerSolution) ← solution.uncons
  let receiver ← curryHashes M.hash singletonModHash
    [receiverSingletonStructHash, otherSingletonInnerPuzzleHash]
  let conditions ← M.eval innerPuzzle innerSolution
  return .pair (.ofList [.atom [66], .atom [18], message, .atom receiver]) conditions

/-- `p2_delegated_by_singleton.clsp`. -/
def p2DelegatedBySingleton (M : Machine) (c : P2DelegatedBySingleton.Curried) (solution : Clvm) :
    Option Clvm := do
  let (singletonInnerPuzzleHash, rest) ← solution.uncons
  let (delegatedPuzzle, delegatedSolution) ← rest.uncons
  let message ← M.hash.treeHash delegatedPuzzle
  let singleton ← curryHashes M.hash c.singletonModHash
    [c.singletonStructHash, singletonInnerPuzzleHash]
  let conditions ← M.eval delegatedPuzzle delegatedSolution
  return .pair (.ofList [.atom [67], .atom [23], .atom message, .atom singleton]) conditions

/-! ## Both do the same -/

section

variable {H : HashOracle}

theorem first_eq (v : Clvm) : v.first = v.uncons.map Prod.fst := by
  cases v <;> rfl

theorem slot_eq (hH : CurryConstants H) (controllerSingletonInfo solution : Clvm) :
    slot H controllerSingletonInfo solution
      = (Rue.slot H controllerSingletonInfo solution).map (List.map Condition.toClvm) := by
  unfold slot Rue.slot singletonFullPuzzleHash Rue.singletonFullPuzzleHash
  simp only [curryHashes_eq hH]
  refine bind_congr_map fun _ => bind_congr_map fun _ => bind_congr_map fun _ => ?_
  exact bind_congr_map fun parent => bind_congr_map fun parentId => bind_congr_map fun _ => rfl

theorem precommit_eq (hH : CurryConstants H) (c : Rue.PrecommitCurried) (solution : Clvm) :
    precommit H c solution = (Rue.precommit H c solution).map (List.map Condition.toClvm) := by
  unfold precommit Rue.precommit
  simp only [curryHashes_eq hH]
  refine bind_congr_map fun _ => bind_congr_map fun _ => bind_congr_map fun sender => ?_
  rfl

theorem defaultCatMaker_eq (hH : CurryConstants H) (catModHash tailHashHash solution : Clvm) :
    defaultCatMaker H catModHash tailHashHash solution
      = Rue.defaultCatMaker H catModHash tailHashHash solution := by
  unfold defaultCatMaker Rue.defaultCatMaker
  simp only [curryHashes_eq hH, first_eq]
  cases solution.uncons <;> rfl

theorem revocableCatMaker_eq (hH : CurryConstants H) (struct tailHashHash solution : Clvm) :
    revocableCatMaker H struct tailHashHash solution
      = Rue.revocableCatMaker H struct tailHashHash solution := by
  unfold revocableCatMaker Rue.revocableCatMaker
  simp only [curryHashes_eq hH, first_eq]
  cases solution.uncons <;> rfl

theorem stateScheduler_eq {M : Machine} (hH : CurryConstants M.hash) (singletonModHash receiver
    message innerPuzzle solution : Clvm) :
    stateScheduler M singletonModHash receiver message innerPuzzle solution
      = Rue.stateScheduler M singletonModHash receiver message innerPuzzle solution := by
  unfold stateScheduler Rue.stateScheduler
  simp only [curryHashes_eq hH]
  rfl

theorem p2DelegatedBySingleton_eq {M : Machine} (hH : CurryConstants M.hash)
    (c : P2DelegatedBySingleton.Curried) (solution : Clvm) :
    p2DelegatedBySingleton M c solution = P2DelegatedBySingleton.main M c solution := by
  unfold p2DelegatedBySingleton P2DelegatedBySingleton.main
  simp only [curryHashes_eq hH]
  rfl

end

/-- **The two implementations of the puzzles of coins agree**, whatever is curried into them
and whatever they are given: both raise, or both return the same. -/
theorem coins_agree (eval : Clvm → Clvm → Option Clvm) (controller solution : Clvm)
    (c : Rue.PrecommitCurried) (catModHash struct tailHashHash : Clvm)
    (singletonModHash receiver message innerPuzzle : Clvm) (p : P2DelegatedBySingleton.Curried) :
    let M : Machine := ⟨.sha256, eval⟩
    slot M.hash controller solution
      = (Rue.slot M.hash controller solution).map (List.map Condition.toClvm) ∧
    precommit M.hash c solution
      = (Rue.precommit M.hash c solution).map (List.map Condition.toClvm) ∧
    defaultCatMaker M.hash catModHash tailHashHash solution
      = Rue.defaultCatMaker M.hash catModHash tailHashHash solution ∧
    revocableCatMaker M.hash struct tailHashHash solution
      = Rue.revocableCatMaker M.hash struct tailHashHash solution ∧
    stateScheduler M singletonModHash receiver message innerPuzzle solution
      = Rue.stateScheduler M singletonModHash receiver message innerPuzzle solution ∧
    p2DelegatedBySingleton M p solution = P2DelegatedBySingleton.main M p solution := by
  intro M
  have hH : CurryConstants M.hash := sha256_curryConstants
  exact ⟨slot_eq hH controller solution, precommit_eq hH c solution,
    defaultCatMaker_eq hH catModHash tailHashHash solution,
    revocableCatMaker_eq hH struct tailHashHash solution,
    stateScheduler_eq hH singletonModHash receiver message innerPuzzle solution,
    p2DelegatedBySingleton_eq hH p solution⟩

end SlotMachine.Chialisp
