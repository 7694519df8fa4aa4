import SlotMachine.Chialisp.Include
import SlotMachine.Rue.Xchandles

/-!
# The Chialisp actions of XCHandles

* `register`, `extend`, `initiateUpdate`, `executeUpdate` — the actions under
  `puzzles/actions/xchandles`.
* `register_of_splits`, `register_eq_none` — **`register` does what the Rue action does**,
  if it can take the slots of the neighbours apart, and raises otherwise.
* `extend_eq` and its like — **each of the others does what the Rue action does**.

An action is given the same solutions as its Rue counterpart.  It takes them apart at the
same places, but for the slots that a registration only copies in Rue.  What it returns is a
state and a list of conditions, as trees.
-/

namespace SlotMachine.Chialisp

open SlotMachine.Xchandles
open Rue.Xchandles (ConstantTrees)

/-- What a Rue action returns, as trees. -/
def asTrees (out : Clvm × List Condition) : Clvm × List Clvm :=
  (out.1, out.2.map Condition.toClvm)

/-- What an action returns, up to the order of the conditions. -/
def outcome (out : Clvm × List Clvm) : Clvm × Multiset Clvm := (out.1, out.2)

/-- `(concat TAG v)`. -/
def concatTag (tag : Char) (v : Clvm) : Option Clvm := do
  let b ← v.bytes?
  return .tagged tag b

/-- `consume_precommit_assert_approvals_and_announce`, with the letters an action uses
for its announcement and for the two approvals. -/
def consumePrecommit (announcement owner resolved : Char) (precommitPuzzleHash precommitAmount :
    Clvm) (ownerPuzzleHash resolvedPuzzleHash : Bytes) : Option (List Clvm) := do
  let announced ← concatTag announcement precommitPuzzleHash
  let ownerMessage ← concatTag owner precommitPuzzleHash
  let resolvedMessage ← concatTag resolved precommitPuzzleHash
  return [.ofList [.atom [66], .atom [19], .atom [1], precommitPuzzleHash, precommitAmount],
      .ofList [.atom [62], announced],
      .ofList [.atom [67], .atom [18], ownerMessage, .atom ownerPuzzleHash]]
    -- get approval from resolved only if it is not the owner
    ++ if ownerPuzzleHash = resolvedPuzzleHash then []
      else [.ofList [.atom [67], .atom [18], resolvedMessage, .atom resolvedPuzzleHash]]

variable (M : Machine) (K : ConstantTrees)

/-- `(spend_slot HANDLE_SLOT_1ST_CURRY_HASH (get_xchandles_slot_value_hash …))`. -/
def spendHandle (counter handleHash neighbors expiration data : Clvm) : Option Clvm := do
  let d ← xchandlesSlotValueHash M.hash counter handleHash neighbors expiration data
  spendSlot M.hash K.handleSlot1stCurryHash d

/-- `(create_slot HANDLE_SLOT_1ST_CURRY_HASH (get_xchandles_slot_value_hash …))`. -/
def createHandle (counter handleHash neighbors expiration data : Clvm) : Option Clvm := do
  let d ← xchandlesSlotValueHash M.hash counter handleHash neighbors expiration data
  createSlot M.hash K.handleSlot1stCurryHash d

/-- The puzzle hash of a singleton, from the constants of an action. -/
def singletonHash (launcherId innerPuzzleHash : Clvm) : Option Bytes :=
  singletonPuzzleHash M.hash K.singletonModHash K.singletonLauncherPuzzleHash launcherId
    innerPuzzleHash

/-- The inner puzzle hash of the precommit coin that `register` and `expire` consume. -/
def precommitInnerPuzzleHash (catMakerHash catMakerSolution pricingPuzzleHash : Clvm)
    (pricing : HandlePricingSolution) (other : OtherPrecommitData) : Option Bytes := do
  let valueHash ← xchandlesPrecommitmentValue M.hash catMakerHash catMakerSolution
    pricingPuzzleHash pricing.toClvm pricing.handle other.secret other.newRest.ownerLauncherId
    other.newRest.resolvedLauncherId
  let valueHashHash ← M.hash.hashAtoms [.atom [1], .atom valueHash]
  curryHashes M.hash K.precommit1stCurryHash [other.refundPuzzleHashHash, .atom valueHashHash]

section

variable {M K}

theorem spendHandle_eq (hH : CurryConstants M.hash) (c h n e d : Clvm) :
    spendHandle M K c h n e d = (Rue.spendSlotOf M.hash K.handleSlot1stCurryHash
      (handleSlotValue c h n e d)).map Condition.toClvm := by
  unfold spendHandle Rue.spendSlotOf
  simp only [spendSlot_eq hH, Option.bind_eq_bind, Option.map_bind]
  rfl

theorem createHandle_eq (hH : CurryConstants M.hash) (c h n e d : Clvm) :
    createHandle M K c h n e d = (Rue.createSlotOf M.hash K.handleSlot1stCurryHash
      (handleSlotValue c h n e d)).map Condition.toClvm := by
  unfold createHandle Rue.createSlotOf
  simp only [createSlot_eq hH, Option.bind_eq_bind, Option.map_bind]
  rfl

theorem singletonHash_eq (hH : CurryConstants M.hash) (i p : Clvm) :
    singletonHash M K i p = Rue.Xchandles.singletonPuzzleHash M.hash K i p :=
  singletonPuzzleHash_eq hH ..

theorem precommitInnerPuzzleHash_eq (hH : CurryConstants M.hash) (catMakerHash catMakerSolution
    pricingPuzzleHash : Clvm) (pricing : HandlePricingSolution) (other : OtherPrecommitData) :
    precommitInnerPuzzleHash M K catMakerHash catMakerSolution pricingPuzzleHash pricing other
      = Rue.Xchandles.precommitInnerPuzzleHash M.hash K other.refundPuzzleHashHash
          ⟨catMakerHash, catMakerSolution, pricingPuzzleHash, pricing.toClvm, pricing.handle,
            other.secret, other.newRest.toClvm⟩ := by
  unfold precommitInnerPuzzleHash Rue.Xchandles.precommitInnerPuzzleHash
  simp only [curryHashes_eq hH]
  rfl

/-- The conditions that consume a precommit coin and ask for the approvals. -/
def approvalConditions (a o r : Char) (b : Bytes) (amount : Clvm) (owner resolved : Bytes) :
    List Condition :=
  [.sendMessage puzzlePuzzleAmount (.atom [1]) [.atom b, amount],
    .createPuzzleAnnouncement (.tagged a b),
    .receiveMessage puzzlePuzzle (.tagged o b) [.atom owner]]
  ++ if owner = resolved then []
    else [.receiveMessage puzzlePuzzle (.tagged r b) [.atom resolved]]

theorem consumePrecommit_eq (a o r : Char) (p amount : Clvm) (owner resolved : Bytes) :
    consumePrecommit a o r p amount owner resolved = p.bytes?.map fun b =>
      (approvalConditions a o r b amount owner resolved).map Condition.toClvm := by
  cases p with
  | pair _ _ => rfl
  | atom b =>
      unfold consumePrecommit approvalConditions
      by_cases hsame : owner = resolved
      · simp only [if_pos hsame]
        rfl
      · simp only [if_neg hsame]
        rfl

end

/-! ## `register` -/

/-- `register.clsp`. -/
def register (truth solution : Clvm) : Option (Clvm × List Clvm) := do
  let t ← XchandlesStateTruth.ofClvm? truth
  let s ← RegisterSolution.ofClvm? solution
  let pricing := s.handlePricing.solution
  let handleHash ← M.hash.hashAtoms [.atom [1], pricing.handle]
  let catMakerHash ← M.hash.treeHash s.catMaker.puzzle
  let pricingHash ← M.hash.treeHash s.handlePricing.puzzle
  let handleMatches ← s.handleHash.eq (.atom handleHash)
  let aboveLeft ← s.handleHash.gtBytes s.leftValue
  let belowRight ← s.rightValue.gtBytes s.handleHash
  let catMakerMatches ← t.state.catMakerPuzzleHash.eq (.atom catMakerHash)
  let pricingMatches ← t.state.pricingPuzzleHash.eq (.atom pricingHash)
  -- all of them, or (x)
  assertThat (handleMatches && !pricing.currentExpiration.truthy && aboveLeft && belowRight
    && catMakerMatches && pricingMatches)
  let priced ← runPricing M s.handlePricing.puzzle pricing.toClvm
  let inner ← precommitInnerPuzzleHash M K t.state.catMakerPuzzleHash s.catMaker.solution
    t.state.pricingPuzzleHash pricing s.other
  let precommit ← M.eval s.catMaker.puzzle (.pair (.atom inner) s.catMaker.solution)
  let owner ← singletonHash M K s.other.newRest.ownerLauncherId s.ownerInnerPuzzleHash
  let resolved ← singletonHash M K s.other.newRest.resolvedLauncherId s.resolvedInnerPuzzleHash
  let approvals ← consumePrecommit 'r' 'a' 'b' precommit priced.totalPrice owner resolved
  let (leftExpiration, leftData) ← s.left.thisB.uncons
  let (rightExpiration, rightData) ← s.right.thisB.uncons
  let spendLeft ← spendHandle M K s.left.thisCounter s.leftValue
    (.pair s.left.thisThisValue s.rightValue) leftExpiration leftData
  let spendRight ← spendHandle M K s.right.thisCounter s.rightValue
    (.pair s.leftValue s.right.thisThisValue) rightExpiration rightData
  let expiration ← pricing.buyTime.add priced.registeredTime
  let createNew ← createHandle M K .nil s.handleHash (.pair s.leftValue s.rightValue) expiration
    s.other.newRest.toClvm
  let leftCounter ← s.left.thisCounter.add (.atom [1])
  let createLeft ← createHandle M K leftCounter s.leftValue
    (.pair s.left.thisThisValue s.handleHash) leftExpiration leftData
  let rightCounter ← s.right.thisCounter.add (.atom [1])
  let createRight ← createHandle M K rightCounter s.rightValue
    (.pair s.handleHash s.right.thisThisValue) rightExpiration rightData
  return (truth, .ofList [.atom [81], pricing.buyTime] :: spendLeft :: spendRight :: createNew
    :: createLeft :: createRight :: approvals)

variable {M K}

/-- The solution has an expiration and data for both neighbours. -/
def Splits (solution : Clvm) : Prop :=
  ∃ s, RegisterSolution.ofClvm? solution = some s ∧ (∃ e d, s.left.thisB = .pair e d) ∧
    ∃ e d, s.right.thisB = .pair e d

/-- Without them the action raises, which the Rue action need not do. -/
theorem register_eq_none {truth solution : Clvm} (h : ¬ Splits solution) :
    register M K truth solution = none := by
  rw [Option.eq_none_iff_forall_ne_some]
  intro out hout
  obtain ⟨t, -, h1⟩ := bind_elim hout
  obtain ⟨s, hs, h2⟩ := bind_elim h1
  obtain ⟨handleHash, -, h3⟩ := bind_elim h2
  obtain ⟨catMakerHash, -, h4⟩ := bind_elim h3
  obtain ⟨pricingHash, -, h5⟩ := bind_elim h4
  obtain ⟨handleMatches, -, h6⟩ := bind_elim h5
  obtain ⟨aboveLeft, -, h7⟩ := bind_elim h6
  obtain ⟨belowRight, -, h8⟩ := bind_elim h7
  obtain ⟨catMakerMatches, -, h9⟩ := bind_elim h8
  obtain ⟨pricingMatches, -, h10⟩ := bind_elim h9
  obtain ⟨_, -, h11⟩ := bind_elim h10
  obtain ⟨priced, -, h12⟩ := bind_elim h11
  obtain ⟨inner, -, h13⟩ := bind_elim h12
  obtain ⟨precommit, -, h14⟩ := bind_elim h13
  obtain ⟨owner, -, h15⟩ := bind_elim h14
  obtain ⟨resolved, -, h16⟩ := bind_elim h15
  obtain ⟨approvals, -, h17⟩ := bind_elim h16
  obtain ⟨⟨leftExpiration, leftData⟩, hleft, h18⟩ := bind_elim h17
  obtain ⟨⟨rightExpiration, rightData⟩, hright, -⟩ := bind_elim h18
  exact h ⟨s, hs, ⟨_, _, Clvm.uncons_eq_some.1 hleft⟩, _, _, Clvm.uncons_eq_some.1 hright⟩

/-- **With them it does what the Rue action does.** -/
theorem register_of_splits (hH : CurryConstants M.hash) {solution : Clvm} (h : Splits solution)
    (truth : Clvm) :
    register M K truth solution = (Rue.Xchandles.register M K truth solution).map asTrees := by
  obtain ⟨s, hs, ⟨leftExpiration, leftData, hleft⟩, rightExpiration, rightData, hright⟩ := h
  have hleftSlot : ∀ c v, s.leftSlot c v = handleSlotValue c s.leftValue
      (.pair s.left.thisThisValue v) leftExpiration leftData := by
    intro c v
    rw [RegisterSolution.leftSlot, hleft]
    rfl
  have hrightSlot : ∀ c v, s.rightSlot c v = handleSlotValue c s.rightValue
      (.pair v s.right.thisThisValue) rightExpiration rightData := by
    intro c v
    rw [RegisterSolution.rightSlot, hright]
    rfl
  unfold register Rue.Xchandles.register
  simp only [spendHandle_eq hH, createHandle_eq hH, singletonHash_eq hH,
    precommitInnerPuzzleHash_eq hH, consumePrecommit_eq, hs, some_bind, hleft, hright,
    Clvm.uncons_pair, hleftSlot, hrightSlot]
  refine bind_congr_map fun t => ?_
  -- the Rue action runs the pricing puzzle before the checks
  cases runPricing M s.handlePricing.puzzle s.handlePricing.solution.toClvm with
  | none => simp only [↓none_bind, bind_none, Option.map_none]
  | some priced =>
    rw [some_bind]
    refine bind_congr_map fun handleHash => bind_congr_map fun catMakerHash => ?_
    refine bind_congr_map fun pricingHash => bind_congr_map fun handleMatches => ?_
    refine bind_congr_map fun aboveLeft => bind_congr_map fun belowRight => ?_
    refine bind_congr_map fun catMakerMatches => bind_congr_map fun pricingMatches => ?_
    refine bind_congr_map fun _ => bind_congr_map fun inner => ?_
    unfold runCatMaker
    cases M.eval s.catMaker.puzzle (.pair (.atom inner) s.catMaker.solution) with
    | none => rfl
    | some precommit =>
      cases precommit with
      | pair _ _ => exact (congrArg _ (funext fun _ => bind_none)).trans bind_none
      | atom b =>
        rw [some_bind, some_bind]
        refine bind_congr_map fun owner => bind_congr_map fun resolved => ?_
        rw [bytes?_atom, Option.map_some, some_bind]
        refine map_bind_congr_map fun spendLeft => map_bind_congr_map fun spendRight => ?_
        refine bind_congr_map fun expiration => map_bind_congr_map fun createNew => ?_
        refine bind_congr_map fun leftCounter => map_bind_congr_map fun createLeft => ?_
        refine bind_congr_map fun rightCounter => map_bind_congr_map fun createRight => ?_
        unfold registerConditions approvalConditions
        by_cases hsame : owner = resolved
        · simp only [if_pos hsame]
          rfl
        · simp only [if_neg hsame]
          rfl

/-! ## `extend` -/

/-- `extend.clsp`. -/
def extend (M : Machine) (K : ConstantTrees) (truth solution : Clvm) :
    Option (Clvm × List Clvm) := do
  let t ← XchandlesStateTruth.ofClvm? truth
  let s ← ExtendSolution.ofClvm? solution
  let pricing := s.handlePricing.solution
  let catMakerHash ← M.hash.treeHash s.catMaker.puzzle
  let catMakerMatches ← t.state.catMakerPuzzleHash.eq (.atom catMakerHash)
  let pricingHash ← M.hash.treeHash s.handlePricing.puzzle
  let pricingMatches ← t.state.pricingPuzzleHash.eq (.atom pricingHash)
  -- both of them, or (x)
  assertThat (catMakerMatches && pricingMatches)
  let priced ← runPricing M s.handlePricing.puzzle pricing.toClvm
  let handleHash ← M.hash.hashAtoms [.atom [1], pricing.handle]
  let offer ← M.eval s.catMaker.puzzle (.pair K.offerModHash s.catMaker.solution)
  let spend ← spendHandle M K s.counter (.atom handleHash) s.neighbors pricing.currentExpiration
    s.restData
  let announcement ← M.hash.treeHash (.pair priced.totalPrice pricing.handle)
  let counter ← s.counter.add (.atom [1])
  let expiration ← pricing.currentExpiration.add priced.registeredTime
  let create ← createHandle M K counter (.atom handleHash) s.neighbors expiration s.restData
  let nonce ← M.hash.treeHash (.pair pricing.handle pricing.currentExpiration)
  let notarized ← M.hash.treeHash (.ofList [.atom nonce,
    .ofList [K.payoutPuzzleHash, priced.totalPrice, .ofList [K.payoutPuzzleHash]]])
  let payment ← M.hash.hashAtoms [offer, .atom notarized]
  return (truth, [
    spend,
    .ofList [.atom [62], .tagged 'e' announcement],
    -- can't extend if expired
    .ofList [.atom [85], pricing.currentExpiration],
    .ofList [.atom [81], pricing.buyTime],
    create,
    .ofList [.atom [63], .atom payment]])

theorem extend_eq (hH : CurryConstants M.hash) (truth solution : Clvm) :
    extend M K truth solution = (Rue.Xchandles.extend M K truth solution).map asTrees := by
  unfold extend Rue.Xchandles.extend
  simp only [spendHandle_eq hH, createHandle_eq hH]
  refine bind_congr_map fun t => bind_congr_map fun s => ?_
  -- the Rue action runs both programs before the checks
  cases runPricing M s.handlePricing.puzzle s.handlePricing.solution.toClvm with
  | none => simp only [↓none_bind, bind_none, Option.map_none]
  | some priced =>
    rw [some_bind]
    cases hhandle : M.hash.treeHashAtom s.handlePricing.solution.handle with
    | none =>
      have hnone : M.hash.hashAtoms [.atom [1], s.handlePricing.solution.handle] = none := hhandle
      simp only [hnone, ↓none_bind, bind_none, Option.map_none]
    | some handleHash =>
      have hsome : M.hash.hashAtoms [.atom [1], s.handlePricing.solution.handle]
        = some handleHash := hhandle
      rw [some_bind, hsome]
      unfold Rue.runCatMakerOn
      cases M.eval s.catMaker.puzzle (.pair K.offerModHash s.catMaker.solution) with
      | none => simp only [↓none_bind, bind_none, Option.map_none]
      | some offer =>
        cases offer with
        | pair _ _ =>
          simp only [↓some_bind, hashAtoms_pair, ↓none_bind, bind_none]
          rfl
        | atom b =>
          simp only [↓some_bind, ↓bytes?_atom]
          refine bind_congr_map fun catMakerHash => ?_
          rw [eq_swap]
          refine bind_congr_map fun catMakerMatches => bind_congr_map fun pricingHash => ?_
          rw [eq_swap]
          refine bind_congr_map fun pricingMatches => bind_congr_map fun _ => ?_
          refine map_bind_congr_map fun spend => bind_congr_map fun announcement => ?_
          refine bind_congr_map fun counter => bind_congr_map fun expiration => ?_
          refine map_bind_congr_map fun create => bind_congr_map fun nonce => ?_
          refine bind_congr_map fun notarized => bind_congr_map fun payment => ?_
          rfl

/-! ## `initiate_update` -/

/-- The id of the coin of a singleton, which the two actions write out. -/
def ownerCoinId (M : Machine) (K : ConstantTrees) (launcherId : Clvm) (proof : CompactCoinProof) :
    Option Bytes := do
  let ph ← singletonHash M K launcherId proof.innerPuzzleHash
  M.hash.coinid proof.parentInfo (.atom ph) proof.amount

/-- `(spend_slot HANDLE_SLOT_1ST_CURRY_HASH (sha256tree value))`. -/
def spendHandleValue (M : Machine) (K : ConstantTrees) (value : Clvm) : Option Clvm := do
  let d ← M.hash.treeHash value
  spendSlot M.hash K.handleSlot1stCurryHash d

/-- `(create_slot HANDLE_SLOT_1ST_CURRY_HASH (sha256tree value))`. -/
def createHandleValue (M : Machine) (K : ConstantTrees) (value : Clvm) : Option Clvm := do
  let d ← M.hash.treeHash value
  createSlot M.hash K.handleSlot1stCurryHash d

/-- `update_slot_value_hash`. -/
def updateSlotValueHash (M : Machine) (updateSlot1stCurryHash : Clvm) (valueHash : Bytes)
    (ownerCoinId : Clvm) : Option (List Clvm) := do
  let create ← createSlotWithHint M.hash updateSlot1stCurryHash valueHash ownerCoinId
  -- the message of the current owner, and the update slot
  return [.ofList [.atom [67], .atom [58], .tagged 'i' valueHash, ownerCoinId], create]

/-- `consume_messages_and_create_slot_stager`. -/
def consumeMessagesAndCreateSlotStager (M : Machine) (updateSlot1stCurryHash
    minExecutionHeight updateSlotValueB ownerCoinId : Clvm) : Option (List Clvm) := do
  let valueHash ← M.hash.treeHash (.pair (.pair ownerCoinId minExecutionHeight) updateSlotValueB)
  updateSlotValueHash M updateSlot1stCurryHash valueHash ownerCoinId

/-- `initiate_update.clsp`. -/
def initiateUpdate (M : Machine) (K : ConstantTrees) (truth solution : Clvm) :
    Option (Clvm × List Clvm) := do
  let s ← InitiateSolution.ofClvm? solution
  let slot := s.currentSlot
  let id ← ownerCoinId M K slot.ownerLauncherId s.currentOwnerProof
  let minExecutionHeight ← s.minHeight.add K.relativeBlockHeight
  let rest := Clvm.pair (.pair slot.handleHash slot.neighbors)
    (.pair slot.expiration (.pair slot.ownerLauncherId slot.resolvedLauncherId))
  let spend ← spendHandleValue M K (.pair slot.counter rest)
  let counter ← slot.counter.add (.atom [1])
  let create ← createHandleValue M K (.pair counter rest)
  let updates ← consumeMessagesAndCreateSlotStager M K.updateSlot1stCurryHash minExecutionHeight
    (.pair slot.handleHash s.newData) (.atom id)
  return (truth,
    -- can't update if expired
    .ofList [.atom [85], slot.expiration]
    -- min_height is in the future
    :: .ofList [.atom [87], s.minHeight] :: spend :: create :: updates)

theorem ownerCoinId_eq (hH : CurryConstants M.hash) (i : Clvm) (proof : CompactCoinProof) :
    ownerCoinId M K i proof = Rue.Xchandles.ownerCoinId M.hash K i proof := by
  unfold ownerCoinId Rue.Xchandles.ownerCoinId
  simp only [singletonHash_eq hH]

theorem spendHandleValue_eq (hH : CurryConstants M.hash) (value : Clvm) :
    spendHandleValue M K value
      = (Rue.spendSlotOf M.hash K.handleSlot1stCurryHash value).map Condition.toClvm := by
  unfold spendHandleValue Rue.spendSlotOf
  simp only [spendSlot_eq hH, Option.bind_eq_bind, Option.map_bind]
  rfl

theorem createHandleValue_eq (hH : CurryConstants M.hash) (value : Clvm) :
    createHandleValue M K value
      = (Rue.createSlotOf M.hash K.handleSlot1stCurryHash value).map Condition.toClvm := by
  unfold createHandleValue Rue.createSlotOf
  simp only [createSlot_eq hH, Option.bind_eq_bind, Option.map_bind]
  rfl

theorem updateSlotValueHash_eq (hH : CurryConstants M.hash) (fc : Clvm) (d : Bytes) (id : Clvm) :
    updateSlotValueHash M fc d id = (Rue.createSlotWithHint M.hash fc d id).map fun create =>
      [Condition.toClvm (.receiveMessage coinPuzzle (.tagged 'i' d) [id]), create.toClvm] := by
  unfold updateSlotValueHash
  rw [createSlotWithHint_eq hH]
  cases Rue.createSlotWithHint M.hash fc d id <;> rfl

theorem initiateUpdate_eq (hH : CurryConstants M.hash) (truth solution : Clvm) :
    initiateUpdate M K truth solution
      = (Rue.Xchandles.initiateUpdate M K truth solution).map asTrees := by
  unfold initiateUpdate Rue.Xchandles.initiateUpdate consumeMessagesAndCreateSlotStager
    updateSlotValue
  simp only [ownerCoinId_eq hH, spendHandleValue_eq hH, createHandleValue_eq hH,
    updateSlotValueHash_eq hH]
  refine bind_congr_map fun s => bind_congr_map fun id => bind_congr_map fun height => ?_
  -- the Rue action hashes the update slot first
  cases M.hash.treeHash (.pair (.pair (.atom id) height)
    (.pair s.currentSlot.handleHash s.newData)) with
  | none => simp only [↓none_bind, bind_none, Option.map_none]
  | some valueHash =>
    simp only [↓some_bind]
    refine map_bind_congr_map fun spend => bind_congr_map fun counter => ?_
    refine map_bind_congr_map fun create => map_bind_congr_map fun createUpdate => ?_
    rfl

/-! ## `execute_update` -/

/-- `consume_messages_and_spend_slot`. -/
def consumeMessagesAndSpendSlot (M : Machine) (updateSlot1stCurryHash : Clvm)
    (valueHash ownerCoinId newOwner newResolved : Bytes) : Option (List Clvm) := do
  let spend ← spendSlot M.hash updateSlot1stCurryHash valueHash
  return [
    -- the message of the current owner
    .ofList [.atom [67], .atom [58], .tagged 'u' valueHash, .atom ownerCoinId],
    -- the approvals of the new owner and of the new resolved singleton
    .ofList [.atom [67], .atom [18], .tagged 'o' valueHash, .atom newOwner],
    .ofList [.atom [67], .atom [18], .tagged 'r' valueHash, .atom newResolved],
    spend]

/-- `execute_update.clsp`. -/
def executeUpdate (M : Machine) (K : ConstantTrees) (truth solution : Clvm) :
    Option (Clvm × List Clvm) := do
  let s ← ExecuteSolution.ofClvm? solution
  let slot := s.currentSlot
  let newData := s.newData.toClvm
  let valueHash ← M.hash.treeHash (.pair (.pair s.currentOwnerProof.parentInfo
    s.minExecutionHeight) (.pair slot.handleHash newData))
  let id ← ownerCoinId M K slot.ownerLauncherId s.currentOwnerProof
  let newOwner ← singletonHash M K s.newData.ownerLauncherId s.newOwnerInnerPuzzleHash
  let newResolved ← singletonHash M K s.newData.resolvedLauncherId s.newResolvedInnerPuzzleHash
  let spend ← spendHandleValue M K slot.toClvm
  let counter ← slot.counter.add (.atom [1])
  let create ← createHandleValue M K (.pair counter
    (.pair (.pair slot.handleHash slot.neighbors) (.pair slot.expiration newData)))
  let messages ← consumeMessagesAndSpendSlot M K.updateSlot1stCurryHash valueHash id newOwner
    newResolved
  return (truth,
    -- can't update if expired
    .ofList [.atom [85], slot.expiration]
    -- min_execution_height has passed
    :: .ofList [.atom [83], s.minExecutionHeight] :: spend :: create :: messages)

theorem consumeMessagesAndSpendSlot_eq (hH : CurryConstants M.hash) (fc : Clvm)
    (d id owner resolved : Bytes) :
    consumeMessagesAndSpendSlot M fc d id owner resolved
      = (Rue.spendSlot M.hash fc d).map fun spend =>
          [Condition.toClvm (.receiveMessage coinPuzzle (.tagged 'u' d) [.atom id]),
            Condition.toClvm (.receiveMessage puzzlePuzzle (.tagged 'o' d) [.atom owner]),
            Condition.toClvm (.receiveMessage puzzlePuzzle (.tagged 'r' d) [.atom resolved]),
            spend.toClvm] := by
  unfold consumeMessagesAndSpendSlot
  rw [spendSlot_eq hH]
  cases Rue.spendSlot M.hash fc d <;> rfl

theorem executeUpdate_eq (hH : CurryConstants M.hash) (truth solution : Clvm) :
    executeUpdate M K truth solution
      = (Rue.Xchandles.executeUpdate M K truth solution).map asTrees := by
  unfold executeUpdate Rue.Xchandles.executeUpdate
  simp only [ownerCoinId_eq hH, singletonHash_eq hH, spendHandleValue_eq hH,
    createHandleValue_eq hH, consumeMessagesAndSpendSlot_eq hH]
  refine bind_congr_map fun s => bind_congr_map fun valueHash => bind_congr_map fun id => ?_
  refine bind_congr_map fun newOwner => bind_congr_map fun newResolved => ?_
  refine map_bind_congr_map fun spend => bind_congr_map fun counter => ?_
  refine map_bind_congr_map fun create => map_bind_congr_map fun spendUpdate => ?_
  rfl

end SlotMachine.Chialisp
