import SlotMachine.Chialisp.Xchandles
import SlotMachine.Rue.Catalog

/-!
# The Chialisp actions of CATalog, and the shared one

* `delegatedState` — the action under `puzzles/actions/shared`.
* `register` — the one under `puzzles/actions/catalog`.
* `delegatedState_eq`, `Catalog.register_eq` — **both do what the Rue actions do**.
* `actions_agree` — **so do the others, with SHA-256**, but for a registration in XCHandles
  that shows a neighbour without expiration and data: `register_disagrees`.
-/

namespace SlotMachine.Chialisp

/-! ## `delegated_state` -/

/-- `delegated_state.clsp`. -/
def delegatedState (M : Machine) (singletonModHash otherSingletonStructHash truth solution : Clvm) :
    Option (Clvm × List Clvm) := do
  let (ephemeralState, _) ← truth.uncons
  let (newState, otherSingletonInnerPuzzleHash) ← solution.uncons
  let stateHash ← M.hash.treeHash newState
  let sender ← curryHashes M.hash singletonModHash
    [otherSingletonStructHash, otherSingletonInnerPuzzleHash]
  return (.pair ephemeralState newState,
    [.ofList [.atom [67], .atom [18], .tagged 's' stateHash, .atom sender]])

theorem delegatedState_eq {M : Machine} (hH : CurryConstants M.hash)
    (singletonModHash otherSingletonStructHash truth solution : Clvm) :
    delegatedState M singletonModHash otherSingletonStructHash truth solution
      = (Rue.delegatedState M singletonModHash otherSingletonStructHash truth solution).map
          asTrees := by
  unfold delegatedState Rue.delegatedState
  simp only [curryHashes_eq hH]
  refine bind_congr_map fun ⟨ephemeralState, _⟩ => bind_congr_map fun ⟨newState, inner⟩ => ?_
  refine bind_congr_map fun stateHash => bind_congr_map fun sender => ?_
  rfl

namespace Catalog

open SlotMachine.Catalog
open Rue.Catalog (ConstantTrees)

/-! ## `register` -/

section

variable (M : Machine) (K : ConstantTrees)

/-- `(spend_slot SLOT_1ST_CURRY_HASH (get_slot_value_hash …))`. -/
def spendSlotValue (counter value left right : Clvm) : Option Clvm := do
  let d ← M.hash.treeHash (.pair counter (.pair value (.pair left right)))
  spendSlot M.hash K.slot1stCurryHash d

/-- `(create_slot SLOT_1ST_CURRY_HASH (get_slot_value_hash …))`. -/
def createSlotValue (counter value left right : Clvm) : Option Clvm := do
  let d ← M.hash.treeHash (.pair counter (.pair value (.pair left right)))
  createSlot M.hash K.slot1stCurryHash d

/-- `prelauncher_full_puzzle_hash`. -/
def uniquenessPrelauncherPuzzleHash (tailHash : Clvm) : Option Bytes := do
  let v ← M.hash.hashAtoms [.atom [1], tailHash]
  curryHashes M.hash K.uniquenessPrelauncher1stCurryHash [.atom v]

/-- `create_prelauncher_and_assert_launcher`. -/
def createPrelauncherAndAssertLauncher (nftPack myId initialNftOwnerPh : Clvm)
    (prelauncher : Bytes) (conditionsSoFar : List Clvm) : Option (List Clvm) := do
  let prelauncherId ← M.hash.coinid myId (.atom prelauncher) .nil
  let launcherPuzzleHash ← nftPack.first >>= Clvm.first >>= Clvm.first
  let launcherId ← M.hash.coinid (.atom prelauncherId) launcherPuzzleHash (.atom [1])
  let nft ← secureNft M.hash nftPack initialNftOwnerPh (.atom launcherId)
  return .ofList [.atom [51], .atom prelauncher, .nil] :: nft :: conditionsSoFar

/-- The puzzle hash of the precommit coin a registration consumes. -/
def precommitPuzzleHash (maker : Clvm) (o : Opening) : Option Clvm := do
  let h ← M.hash.treeHash
    (.pair o.data.initialNftOwnerPh (.pair o.catMakerHash o.catMakerSolution))
  let hh ← M.hash.hashAtoms [.atom [1], .atom h]
  let value ← M.hash.hashAtoms [.atom [2], o.data.tailHash, .atom hh]
  let inner ← curryHashes M.hash K.precommit1stCurryHash [o.data.refundPuzzleHashHash, .atom value]
  M.eval maker (.pair (.atom inner) o.catMakerSolution)

/-- `register.clsp`. -/
def register (truth solution : Clvm) : Option (Clvm × List Clvm) := do
  let t ← CatalogStateTruth.ofClvm? truth
  let s ← RegisterSolution.ofClvm? solution
  let tail := s.other.tailHash
  let aboveLeft ← tail.gtBytes s.left.tailHash
  let belowRight ← s.right.tailHash.gtBytes tail
  let catMakerHash ← M.hash.treeHash s.catMaker.puzzle
  let catMakerMatches ← (Clvm.atom catMakerHash).eq t.state.catMakerPuzzleHash
  -- all of them, or (x)
  assertThat (aboveLeft && belowRight && catMakerMatches)
  let prelauncher ← uniquenessPrelauncherPuzzleHash M K tail
  let precommit ← precommitPuzzleHash M K s.catMaker.puzzle (s.opening t.state)
  let announced ← M.hash.treeHash (.pair tail s.other.initialNftOwnerPh)
  let spendLeft ← spendSlotValue M K s.left.counter s.left.tailHash s.left.outerTailHash
    s.right.tailHash
  let spendRight ← spendSlotValue M K s.right.counter s.right.tailHash s.left.tailHash
    s.right.outerTailHash
  let createNew ← createSlotValue M K .nil tail s.left.tailHash s.right.tailHash
  let leftCounter ← s.left.counter.add (.atom [1])
  let createLeft ← createSlotValue M K leftCounter s.left.tailHash s.left.outerTailHash tail
  let rightCounter ← s.right.counter.add (.atom [1])
  let createRight ← createSlotValue M K rightCounter s.right.tailHash tail s.right.outerTailHash
  let conditions ← createPrelauncherAndAssertLauncher M K.nftPack s.myId s.other.initialNftOwnerPh
    prelauncher [
      .ofList [.atom [70], s.myId],
      .ofList [.atom [62], .tagged 'r' announced],
      spendLeft, spendRight, createNew, createLeft, createRight,
      .ofList [.atom [66], .atom [19], .atom [1], precommit, t.state.registrationPrice]]
  return (truth, conditions)

variable {M K}

theorem spendSlotValue_eq (hH : CurryConstants M.hash) (c v l r : Clvm) :
    spendSlotValue M K c v l r = (Rue.spendSlotOf M.hash K.slot1stCurryHash
      (slotValue c v l r)).map Condition.toClvm := by
  unfold spendSlotValue Rue.spendSlotOf
  simp only [spendSlot_eq hH, Option.bind_eq_bind, Option.map_bind]
  rfl

theorem createSlotValue_eq (hH : CurryConstants M.hash) (c v l r : Clvm) :
    createSlotValue M K c v l r = (Rue.createSlotOf M.hash K.slot1stCurryHash
      (slotValue c v l r)).map Condition.toClvm := by
  unfold createSlotValue Rue.createSlotOf
  simp only [createSlot_eq hH, Option.bind_eq_bind, Option.map_bind]
  rfl

theorem precommitPuzzleHash_eq (hH : CurryConstants M.hash) (maker : Clvm) (o : Opening) :
    precommitPuzzleHash M K maker o = Rue.Catalog.precommitPuzzleHash M K maker o := by
  unfold precommitPuzzleHash Rue.Catalog.precommitPuzzleHash Rue.Catalog.precommitInnerPuzzleHash
    precommitValueHash
  simp only [curryHashes_eq hH, Option.bind_eq_bind, Option.bind_assoc]
  rfl

theorem uniquenessPrelauncherPuzzleHash_eq (hH : CurryConstants M.hash) (tailHash : Clvm) :
    uniquenessPrelauncherPuzzleHash M K tailHash = Rue.uniquenessPrelauncherPuzzleHash M.hash
      K.uniquenessPrelauncher1stCurryHash tailHash := by
  unfold uniquenessPrelauncherPuzzleHash Rue.uniquenessPrelauncherPuzzleHash
  simp only [curryHashes_eq hH]
  rfl

/-- Without a whole pack there is no NFT to secure. -/
theorem createPrelauncherAndAssertLauncher_eq_none (hH : CurryConstants M.hash)
    {nftPack : Clvm} (hpack : Rue.NftPackTree.ofClvm? nftPack = none) (myId owner : Clvm)
    (prelauncher : Bytes) (cs : List Clvm) :
    createPrelauncherAndAssertLauncher M nftPack myId owner prelauncher cs = none := by
  have hnft : ∀ l, secureNft M.hash nftPack owner l = none := by
    intro l
    rw [secureNft_eq hH, hpack]
    rfl
  unfold createPrelauncherAndAssertLauncher
  simp only [hnft, none_bind, bind_none]

theorem createPrelauncherAndAssertLauncher_eq (hH : CurryConstants M.hash)
    {nftPack : Clvm} {pack : Rue.NftPackTree} (hpack : Rue.NftPackTree.ofClvm? nftPack = some pack)
    (myId owner : Clvm) (prelauncher : Bytes) (cs : List Clvm) :
    createPrelauncherAndAssertLauncher M nftPack myId owner prelauncher cs = (do
      let prelauncherId ← M.hash.coinid myId (.atom prelauncher) .nil
      let launcherId ← M.hash.coinid (.atom prelauncherId) pack.launcherModHash (.atom [1])
      Rue.secureNft M.hash pack owner (.atom launcherId)).map fun nft =>
        .ofList [.atom [51], .atom prelauncher, .nil] :: Condition.toClvm nft :: cs := by
  have hfirst : (nftPack.first >>= Clvm.first >>= Clvm.first) = some pack.launcherModHash := by
    unfold Rue.NftPackTree.ofClvm? at hpack
    split at hpack
    · cases hpack; rfl
    · cases hpack
  unfold createPrelauncherAndAssertLauncher
  rw [hfirst]
  refine bind_congr_map fun prelauncherId => ?_
  rw [some_bind]
  refine bind_congr_map fun launcherId => ?_
  rw [secureNft_eq hH, hpack, Option.bind_some]
  cases Rue.secureNft M.hash pack owner (.atom launcherId) <;> rfl

theorem register_eq (hH : CurryConstants M.hash) (truth solution : Clvm) :
    register M K truth solution = (Rue.Catalog.register M K truth solution).map asTrees := by
  unfold register Rue.Catalog.register
  simp only [spendSlotValue_eq hH, createSlotValue_eq hH, precommitPuzzleHash_eq hH,
    uniquenessPrelauncherPuzzleHash_eq hH]
  refine bind_congr_map fun t => bind_congr_map fun s => bind_congr_map fun aboveLeft => ?_
  refine bind_congr_map fun belowRight => bind_congr_map fun catMakerHash => ?_
  refine bind_congr_map fun catMakerMatches => bind_congr_map fun _ => ?_
  refine bind_congr_map fun prelauncher => ?_
  cases hpack : Rue.NftPackTree.ofClvm? K.nftPack with
  | none =>
    simp only [createPrelauncherAndAssertLauncher_eq_none hH hpack, none_bind, bind_none,
      Option.map_none]
  | some pack =>
    simp only [createPrelauncherAndAssertLauncher_eq hH hpack]
    -- the Rue action secures the NFT first
    cases M.hash.coinid s.myId (.atom prelauncher) .nil with
    | none => simp only [none_bind, bind_none, Option.map_none]
    | some prelauncherId =>
      simp only [↓some_bind]
      cases M.hash.coinid (.atom prelauncherId) pack.launcherModHash (.atom [1]) with
      | none => simp only [none_bind, bind_none, Option.map_none]
      | some launcherId =>
        simp only [↓some_bind]
        refine bind_congr_map fun precommit => ?_
        cases Rue.secureNft M.hash pack s.other.initialNftOwnerPh (.atom launcherId) with
        | none => simp only [none_bind, bind_none, Option.map_none]
        | some nft =>
          simp only [↓some_bind]
          refine bind_congr_map fun announced => map_bind_congr_map fun spendLeft => ?_
          refine map_bind_congr_map fun spendRight => map_bind_congr_map fun createNew => ?_
          refine bind_congr_map fun leftCounter => map_bind_congr_map fun createLeft => ?_
          refine bind_congr_map fun rightCounter => map_bind_congr_map fun createRight => ?_
          rfl

end

end Catalog

/-! ## All of them -/

/-- **The two implementations of the actions agree**, with any constants, on any state
and any solution: both raise, or both return the same state and the same conditions,
in the same order even.  The registrations of XCHandles do so exactly if the Rue action
raises or the solution has an expiration and data for both neighbours; if not, the
Chialisp action raises. -/
theorem actions_agree (eval : Clvm → Clvm → Option Clvm) (K : Rue.Xchandles.ConstantTrees)
    (C : Rue.Catalog.ConstantTrees) (singletonModHash otherSingletonStructHash truth solution :
    Clvm) :
    let M : Machine := ⟨.sha256, eval⟩
    ((register M K truth solution = (Rue.Xchandles.register M K truth solution).map asTrees ∨
        register M K truth solution = none) ∧
      (register M K truth solution = (Rue.Xchandles.register M K truth solution).map asTrees ↔
        ∀ out, Rue.Xchandles.register M K truth solution = some out → Splits solution)) ∧
    extend M K truth solution = (Rue.Xchandles.extend M K truth solution).map asTrees ∧
    initiateUpdate M K truth solution
      = (Rue.Xchandles.initiateUpdate M K truth solution).map asTrees ∧
    executeUpdate M K truth solution
      = (Rue.Xchandles.executeUpdate M K truth solution).map asTrees ∧
    delegatedState M singletonModHash otherSingletonStructHash truth solution
      = (Rue.delegatedState M singletonModHash otherSingletonStructHash truth solution).map
          asTrees ∧
    Catalog.register M C truth solution
      = (Rue.Catalog.register M C truth solution).map asTrees := by
  intro M
  have hH : CurryConstants M.hash := sha256_curryConstants
  refine ⟨?_, extend_eq hH truth solution, initiateUpdate_eq hH truth solution,
    executeUpdate_eq hH truth solution,
    delegatedState_eq hH singletonModHash otherSingletonStructHash truth solution,
    Catalog.register_eq hH truth solution⟩
  by_cases hsplits : Splits solution
  · have heq := register_of_splits (K := K) hH hsplits truth
    exact ⟨Or.inl heq, iff_of_true heq fun _ _ => hsplits⟩
  · have hnone : register M K truth solution = none := register_eq_none hsplits
    refine ⟨Or.inr hnone, ?_⟩
    rw [hnone, eq_comm, Option.map_eq_none_iff, Option.eq_none_iff_forall_ne_some]
    exact forall_congr' fun out => ⟨fun h hout => absurd hout h, fun h hout => hsplits (h hout)⟩

/-! ## A neighbour without expiration and data -/

namespace RegisterExample

/-- Thirty-two bytes. -/
def bytes32 (b : Byte) : Bytes := List.replicate 32 b

def constants : Rue.Xchandles.ConstantTrees where
  singletonModHash := .atom (bytes32 1)
  singletonLauncherPuzzleHash := .atom (bytes32 2)
  precommit1stCurryHash := .atom (bytes32 3)
  handleSlot1stCurryHash := .atom (bytes32 4)
  updateSlot1stCurryHash := .atom (bytes32 5)
  offerModHash := .atom (bytes32 6)
  payoutPuzzleHash := .atom (bytes32 7)
  relativeBlockHeight := .atom [32]

/-- A CAT maker that names one puzzle hash, and a price of 10 for 366 seconds. -/
def catMaker : Clvm := .quoted (.atom (bytes32 8))

def pricing : Clvm := .quoted (.pair (.ofInt 10) (.ofInt 366))

def truth : Clvm := .pair .nil
  (.pair (.atom (Skeleton.ofClvm catMaker).hash)
    (.pair (.atom (Skeleton.ofClvm pricing).hash) .nil))

/-- A registration between two slots; the left one has an atom for expiration and data. -/
def solution : Xchandles.RegisterSolution where
  handleHash := .atom (Skeleton.atom [97, 98, 99, 100]).hash
  leftValue := .atom (bytes32 0)
  rightValue := .atom (bytes32 255)
  catMaker := ⟨catMaker, .nil⟩
  handlePricing := ⟨pricing, ⟨.ofInt 2000, .nil, .atom [97, 98, 99, 100], .nil⟩⟩
  left := ⟨.nil, .atom (bytes32 0), .nil⟩
  right := ⟨.nil, .atom (bytes32 255), .pair .nil .nil⟩
  ownerInnerPuzzleHash := .atom (bytes32 15)
  resolvedInnerPuzzleHash := .atom (bytes32 16)
  other := ⟨⟨.atom (bytes32 9), .atom (bytes32 9)⟩, .atom (bytes32 10), .nil⟩

/-- CLVM, with fuel for the two programs. -/
def eval : Clvm → Clvm → Option Clvm := Clvm.run .sha256 (fun _ _ => none) 1

theorem register_isSome :
    (Rue.Xchandles.register ⟨.sha256, eval⟩ constants truth solution.toClvm).isSome = true := by
  decide +kernel

theorem not_splits : ¬ Splits solution.toClvm := by
  rintro ⟨s, hs, ⟨e, d, hleft⟩, -⟩
  have hsolution : Xchandles.RegisterSolution.ofClvm? solution.toClvm = some solution :=
    Xchandles.RegisterSolution.ofClvm?_eq_some.2 rfl
  rw [← Option.some.inj (hsolution.symm.trans hs)] at hleft
  cases hleft

end RegisterExample

/-- The Rue action copies an atom from one slot of a neighbour to the next; the Chialisp
action raises. -/
theorem register_disagrees :
    (register ⟨.sha256, RegisterExample.eval⟩ RegisterExample.constants RegisterExample.truth
        RegisterExample.solution.toClvm).map outcome
      ≠ ((Rue.Xchandles.register ⟨.sha256, RegisterExample.eval⟩ RegisterExample.constants
        RegisterExample.truth RegisterExample.solution.toClvm).map asTrees).map outcome := by
  obtain ⟨out, hout⟩ := Option.isSome_iff_exists.1 RegisterExample.register_isSome
  rw [register_eq_none RegisterExample.not_splits, hout]
  exact Option.some_ne_none _ ∘ Eq.symm

end SlotMachine.Chialisp
