import SlotMachine.Chialisp.Include
import SlotMachine.Rue.Singleton
import SlotMachine.Singleton.Action

/-!
# The Chialisp singleton layers

* `ActionLayer.main`, `Finalizer.main`, `ReserveFinalizer.main` — the puzzles under
  `puzzles/singleton`, whose recursions take their lists apart as they go.
* `layers_agree` — **each does what the Rue puzzle does**, whatever it is given.
-/

namespace SlotMachine.Chialisp

/-! ## The action layer -/

namespace ActionLayer

open SlotMachine.ActionLayer (Curried Solution)

/-- `item_in_list`, on a list as it is built. -/
def itemInList (item : Clvm) : Clvm → Option Bool
  | .atom _ => none
  | .pair firstItem remainingList => do
      let same ← item.eq firstItem
      if same then some true else itemInList item remainingList

variable (M : Machine)

/-- The condition under which `reduce_and_verify_proofs` goes on. -/
def validSelector (merkleRoot puzzles selector proof selectorsSoFar : Clvm) : Option Bool :=
  if proof.truthy then do
    let program ← M.eval selector puzzles
    let puzzleHash ← M.hash.treeHash program
    let root ← simplifyMerkleProof M.hash puzzleHash proof
    merkleRoot.eq (.atom root)
  else itemInList selector selectorsSoFar

/-- `reduce_and_verify_proofs`. -/
def reduceAndVerifyProofs (merkleRoot puzzles : Clvm) : (selectorsSoFar pending : Clvm) →
    Option Clvm
  | selectorsSoFar, .atom [] => some selectorsSoFar
  | _, .atom (_ :: _) => none
  | selectorsSoFar, .pair selectorAndProof remaining => do
      let (selector, proof) ← selectorAndProof.uncons
      let valid ← validSelector M merkleRoot puzzles selector proof selectorsSoFar
      -- else (x)
      assertThat valid
      reduceAndVerifyProofs merkleRoot puzzles (.pair selector selectorsSoFar) remaining

/-- `run_actions`. -/
def runActions (puzzles : Clvm) : (currentConditions actionOutput pendingSelectors
    pendingSolutions : Clvm) → Option Clvm
  | currentConditions, actionOutput, .atom [], _ => do
      let (truth, newConditions) ← actionOutput.uncons
      return .pair truth (.pair newConditions currentConditions)
  | _, _, .atom (_ :: _), _ => none
  | currentConditions, actionOutput, .pair selector remainingSelectors, pendingSolutions => do
      let (truth, newConditions) ← actionOutput.uncons
      let (solution, remainingSolutions) ← pendingSolutions.uncons
      let puzzle ← M.eval selector puzzles
      let output ← M.eval puzzle (.pair truth solution)
      runActions puzzles (.pair newConditions currentConditions) output remainingSelectors
        remainingSolutions

/-- `action.clsp`. -/
def main (c : Curried) (s : Solution) : Option Clvm :=
  if s.selectorsAndProofs.truthy then do
    let selectors ← reduceAndVerifyProofs M c.merkleRoot s.puzzles .nil s.selectorsAndProofs
    let output ← runActions M s.puzzles .nil (.ofList [.pair .nil c.state]) selectors s.solutions
    M.eval c.finalizer (.pair (.pair c.merkleRoot c.state) (.pair output s.finalizerSolution))
  -- do not allow spends with no actions called
  else none

variable {M}

theorem itemInList_ofList (item : Clvm) (xs : List Clvm) :
    itemInList item (.ofList xs) = SlotMachine.ActionLayer.itemInList item xs := by
  induction xs with
  | nil => rfl
  | cons x xs ih =>
      show (item.eq x >>= fun same => if same then some true else itemInList item (.ofList xs)) = _
      rw [ih, eq_swap]
      rfl

theorem validSelector_ofList (merkleRoot puzzles selector proof : Clvm) (xs : List Clvm) :
    validSelector M merkleRoot puzzles selector proof (.ofList xs)
      = SlotMachine.ActionLayer.validSelector M merkleRoot puzzles selector proof xs := by
  unfold validSelector SlotMachine.ActionLayer.validSelector
  rw [itemInList_ofList]
  simp only [simplifyMerkleProof_eq]

/-- The selectors are collected in the same list. -/
theorem reduceAndVerifyProofs_ofList (merkleRoot puzzles : Clvm) (xs : List Clvm)
    (pending : Clvm) :
    reduceAndVerifyProofs M merkleRoot puzzles (.ofList xs) pending
      = (SlotMachine.ActionLayer.reduceAndVerifyProofs M merkleRoot puzzles xs pending).map
          Clvm.ofList := by
  induction pending generalizing xs with
  | atom b => cases b <;> rfl
  | pair selectorAndProof remaining _ ih =>
      unfold reduceAndVerifyProofs SlotMachine.ActionLayer.reduceAndVerifyProofs
      simp only [validSelector_ofList]
      refine bind_congr_map ?_
      rintro ⟨selector, proof⟩
      refine bind_congr_map fun valid => bind_congr_map fun _ => ?_
      exact ih (selector :: xs)

theorem runActions_ofList (puzzles current output : Clvm) (selectors : List Clvm)
    (solutions : Clvm) :
    runActions M puzzles current output (.ofList selectors) solutions
      = SlotMachine.ActionLayer.runActions M puzzles current output selectors solutions := by
  induction selectors generalizing current output solutions with
  | nil => rfl
  | cons selector selectors ih =>
      unfold SlotMachine.ActionLayer.runActions
      simp only [← ih]
      rfl

theorem main_eq (c : Curried) (s : Solution) :
    main M c s = SlotMachine.ActionLayer.main M c s := by
  have hnil : Clvm.nil = .ofList [] := rfl
  unfold main SlotMachine.ActionLayer.main
  by_cases htruthy : s.selectorsAndProofs.truthy
  · rw [if_pos htruthy, htruthy, hnil, reduceAndVerifyProofs_ofList]
    show _ = (SlotMachine.ActionLayer.reduceAndVerifyProofs M c.merkleRoot s.puzzles []
      s.selectorsAndProofs >>= _)
    cases SlotMachine.ActionLayer.reduceAndVerifyProofs M c.merkleRoot s.puzzles []
      s.selectorsAndProofs with
    | none => rfl
    | some selectors =>
      show (runActions M s.puzzles _ _ (.ofList selectors) s.solutions >>= _) = _
      rw [runActions_ofList]
      rfl
  · rw [if_neg htruthy]
    simp [htruthy, assertThat]

end ActionLayer

/-! ## The default finalizer -/

namespace Finalizer

open Rue.Finalizer (Curried)

/-- `flatten_list`, which puts what is left of the first list back in front of the others. -/
def flattenList : Clvm → Option Clvm
  | .atom _ => none
  | .pair (.atom []) theRest => if theRest.truthy then flattenList theRest else some .nil
  | .pair (.atom (_ :: _)) _ => none
  | .pair (.pair firstCond remainingConds) theRest => do
      let flat ← flattenList (.pair remainingConds theRest)
      return .pair firstCond flat

variable (H : HashOracle)

/-- The recreation of the action layer with a new state, which both finalizers write out. -/
def recreation (actionLayerModHash hint selfHash merkleRoot newState : Clvm) : Option Clvm := do
  let selfHashHash ← H.hashAtoms [.atom [1], selfHash]
  let finalizerHash ← curryHashes H selfHash [.atom selfHashHash]
  let rootHash ← H.hashAtoms [.atom [1], merkleRoot]
  let stateHash ← H.treeHash newState
  let inner ← curryHashes H actionLayerModHash [.atom finalizerHash, .atom rootHash,
    .atom stateHash]
  return .ofList [.atom [51], .atom inner, .atom [1], .ofList [hint]]

/-- `finalizer.clsp`. -/
def main (c : Curried) (solution : Clvm) : Option Clvm := do
  let (truth, outputAndSolution) ← solution.uncons
  let (lastActionOutput, _) ← outputAndSolution.uncons
  let merkleRoot ← truth.first
  let (stateTruth, conditions) ← lastActionOutput.uncons
  let newState ← stateTruth.rest
  let recreate ← recreation H c.actionLayerModHash c.hint c.selfHash merkleRoot newState
  let flat ← flattenList conditions
  return .pair recreate flat

variable {H}

/-- After an empty list the rest follows, if it is not nil. -/
theorem flattenList_nil_pair (theRest : Clvm) :
    SlotMachine.Finalizer.flattenList (.pair (.atom []) theRest)
      = if theRest.truthy then SlotMachine.Finalizer.flattenList theRest else some .nil := rfl

theorem flattenList_eq (lists : Clvm) :
    flattenList lists = SlotMachine.Finalizer.flattenList lists := by
  fun_induction flattenList lists with
  | case1 => rfl
  | case2 theRest htruthy ih => rw [flattenList_nil_pair, if_pos htruthy, ih]
  | case3 theRest htruthy => rw [flattenList_nil_pair, if_neg htruthy]
  | case4 => rfl
  | case5 firstCond remainingConds theRest ih =>
    rw [SlotMachine.Finalizer.flattenList_pair_pair, ih]
    cases SlotMachine.Finalizer.flattenList (.pair remainingConds theRest) <;> rfl

theorem recreation_eq (hH : CurryConstants H) (m hint s root state : Clvm) :
    recreation H m hint s root state = Rue.Finalizer.recreation H m hint s root state := by
  unfold recreation Rue.Finalizer.recreation Rue.Finalizer.puzzleHash
  simp only [curryHashes_eq hH, Option.bind_eq_bind, Option.bind_assoc]
  rfl

theorem main_eq (hH : CurryConstants H) (c : Curried) (solution : Clvm) :
    main H c solution = Rue.Finalizer.main H c solution := by
  unfold main Rue.Finalizer.main
  simp only [recreation_eq hH, flattenList_eq]

end Finalizer

/-! ## The reserve finalizer -/

namespace ReserveFinalizer

open Rue.ReserveFinalizer (Curried)

/-- `parse_conditions`, which puts what is left of the first list back in front of the
others. -/
def parseConditions : (lists conditions extractedReserveConditions : Clvm) → Option (Clvm × Clvm)
  | .atom _, _, _ => none
  | .pair (.atom []) theRest, conditions, extracted =>
      if theRest.truthy then parseConditions theRest conditions extracted
      else some (conditions, extracted)
  | .pair (.atom (_ :: _)) _, _, _ => none
  | .pair (.pair firstCond remaining) theRest, conditions, extracted => do
      let (opcode, condition) ← firstCond.uncons
      let reserve ← opcode.eq (.ofInt (-42))
      if reserve then
        parseConditions (.pair remaining theRest) conditions (.pair condition extracted)
      else parseConditions (.pair remaining theRest) (.pair firstCond conditions) extracted

variable (M : Machine)

/-- `add_message_to_reserve`. -/
def addMessageToReserve (c : Curried) (initialState newState reserveParentId baseConditions
    reserveConditions : Clvm) : Option Clvm := do
  let newAmount ← M.eval c.reserveAmountFromStateProgram newState
  -- this is the leading 'q . ' in the delegated puzzle
  let message ← M.hash.treeHash (.pair (.atom [1]) (.pair
    (.ofList [.atom [51], c.reserveInnerPuzzleHash, newAmount, .ofList [c.reserveInnerPuzzleHash]])
    reserveConditions))
  let totalReserves ← M.eval c.reserveAmountFromStateProgram initialState
  let coin ← M.hash.coinid reserveParentId c.reserveFullPuzzleHash totalReserves
  return .pair (.ofList [.atom [66], .atom [23], .atom message, .atom coin]) baseConditions

/-- `reserve_finalizer.clsp`. -/
def main (c : Curried) (solution : Clvm) : Option Clvm := do
  let (truth, outputAndParent) ← solution.uncons
  let (lastActionOutput, reserveParentId) ← outputAndParent.uncons
  let (merkleRoot, initialState) ← truth.uncons
  let (stateTruth, lists) ← lastActionOutput.uncons
  let newState ← stateTruth.rest
  let (base, reserve) ← parseConditions lists .nil .nil
  let conditions ← addMessageToReserve M c initialState newState reserveParentId base reserve
  let recreate ← Finalizer.recreation M.hash c.actionLayerModHash c.hint c.selfHash merkleRoot
    newState
  return .pair recreate conditions

variable {M}

/-- After an empty list the rest follows, if it is not nil. -/
theorem parseConditions_nil_pair (theRest conditions extracted : Clvm) :
    Rue.ReserveFinalizer.parseConditions (.pair (.atom []) theRest) conditions extracted
      = if theRest.truthy then Rue.ReserveFinalizer.parseConditions theRest conditions extracted
        else some (conditions, extracted) := rfl

theorem parseConditions_eq (lists conditions extracted : Clvm) :
    parseConditions lists conditions extracted
      = Rue.ReserveFinalizer.parseConditions lists conditions extracted := by
  fun_induction parseConditions lists conditions extracted with
  | case1 => rfl
  | case2 theRest conditions extracted htruthy ih =>
    rw [parseConditions_nil_pair, if_pos htruthy, ih]
  | case3 theRest conditions extracted htruthy =>
    rw [parseConditions_nil_pair, if_neg htruthy]
  | case4 => rfl
  | case5 firstCond remaining theRest conditions extracted ih1 ih2 =>
    rw [Rue.ReserveFinalizer.parseConditions_pair_pair]
    simp only [ih1, ih2]
    rfl

theorem main_eq (hH : CurryConstants M.hash) (c : Curried) (solution : Clvm) :
    main M c solution = Rue.ReserveFinalizer.main M c solution := by
  unfold main Rue.ReserveFinalizer.main addMessageToReserve
  simp only [Finalizer.recreation_eq hH, parseConditions_eq, Option.bind_eq_bind,
    Option.bind_assoc]
  rfl

end ReserveFinalizer

/-! ## All of them -/

/-- **The two implementations of the singleton layers agree**, with any arguments
curried into them and on any solution: both raise, or both return the same. -/
theorem layers_agree (eval : Clvm → Clvm → Option Clvm) :
    let M : Machine := ⟨.sha256, eval⟩
    (∀ c s, ActionLayer.main M c s = SlotMachine.ActionLayer.main M c s) ∧
    (∀ c s, Finalizer.main .sha256 c s = Rue.Finalizer.main .sha256 c s) ∧
    ∀ c s, ReserveFinalizer.main M c s = Rue.ReserveFinalizer.main M c s := by
  intro M
  exact ⟨ActionLayer.main_eq, Finalizer.main_eq sha256_curryConstants,
    ReserveFinalizer.main_eq sha256_curryConstants⟩

end SlotMachine.Chialisp
