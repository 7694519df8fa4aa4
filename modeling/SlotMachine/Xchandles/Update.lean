import SlotMachine.Xchandles.Extend

/-!
# XCHandles: `initiate_update` and `execute_update`

The owner of a handle changes its data in two steps.  The first records the new
data in an update slot, together with the coin that asked for it and the height
from which the change may be made; the second, taken by the child of that coin,
spends the update slot and makes the change.

* `initiateUpdate`, `InitiateRun`, `initiateUpdate_eq_some` — the first step.
* `executeUpdate`, `ExecuteRun`, `executeUpdate_eq_some` — the second step.
* their footprints — a handle slot is rewritten; an update slot is opened by
  the first step and closed by the second.
-/

namespace SlotMachine.Xchandles

open Settlement

/-- A handle slot as far as the two actions take it apart. -/
structure CurrentSlot where
  counter : Clvm
  handleHash : Clvm
  neighbors : Clvm
  expiration : Clvm
  ownerLauncherId : Clvm
  resolvedLauncherId : Clvm

/-- `XchandlesHandleSlotValue`. -/
def CurrentSlot.toClvm (s : CurrentSlot) : Clvm :=
  handleSlotValue s.counter s.handleHash s.neighbors s.expiration
    (.pair s.ownerLauncherId s.resolvedLauncherId)

/-- The slot with another counter and other data. -/
def CurrentSlot.update (s : CurrentSlot) (counter data : Clvm) : Clvm :=
  handleSlotValue counter s.handleHash s.neighbors s.expiration data

/-! ## `initiate_update` -/

/-- The solution of `initiate_update`. -/
structure InitiateSolution where
  currentSlot : CurrentSlot
  newData : Clvm
  currentOwnerProof : CompactCoinProof
  minHeight : Clvm

namespace InitiateSolution

def toClvm (s : InitiateSolution) : Clvm :=
  .pair s.currentSlot.toClvm (.pair s.newData
    (.pair (.pair s.currentOwnerProof.parentInfo
      (.pair s.currentOwnerProof.innerPuzzleHash s.currentOwnerProof.amount)) s.minHeight))

def ofClvm? : Clvm → Option InitiateSolution
  | .pair (.pair counter (.pair (.pair k n) (.pair e (.pair o r)))) (.pair newData
      (.pair (.pair parent (.pair inner amount)) minHeight)) =>
      some ⟨⟨counter, k, n, e, o, r⟩, newData, ⟨parent, inner, amount⟩, minHeight⟩
  | _ => none

theorem ofClvm?_eq_some {v : Clvm} {s : InitiateSolution} :
    ofClvm? v = some s ↔ v = s.toClvm := by
  constructor
  · intro h
    unfold ofClvm? at h
    split at h
    · cases h; rfl
    · cases h
  · rintro rfl; rfl

theorem toClvm_injective : Function.Injective toClvm := fun _ _ h =>
  Option.some.inj ((ofClvm?_eq_some.2 rfl).symm.trans (ofClvm?_eq_some.2 h))

end InitiateSolution

/-- The coin of a singleton with the given launcher id, from its proof. -/
def ownerCoinId (H : HashOracle) (K : Constants) (launcherId : Clvm) (proof : CompactCoinProof) :
    Option Bytes := do
  let ph ← singletonPuzzleHash H K launcherId proof.innerPuzzleHash
  H.coinid proof.parentInfo (.atom ph) proof.amount

/-- `initiate_update.rue`. -/
def initiateUpdate (M : Machine) (K : Constants) (truth solution : Clvm) :
    Option (Clvm × List Condition) := do
  let s ← InitiateSolution.ofClvm? solution
  let initiatorCoinId ← ownerCoinId M.hash K s.currentSlot.ownerLauncherId s.currentOwnerProof
  let minExecutionHeight ← s.minHeight.add (.ofInt K.relativeBlockHeight)
  let slotValueHash ← M.hash.treeHash (updateSlotValue (.atom initiatorCoinId) minExecutionHeight
    s.currentSlot.handleHash s.newData)
  let spend ← spendHandle M.hash K s.currentSlot.toClvm
  let counter ← s.currentSlot.counter.increment
  let create ← createHandle M.hash K (s.currentSlot.update counter
    (.pair s.currentSlot.ownerLauncherId s.currentSlot.resolvedLauncherId))
  let createUpdate ← M.hash.createSlotWithHint K.updateSlot1stCurryHash slotValueHash initiatorCoinId
  return (truth, [
    -- can't update if expired
    .assertBeforeSecondsAbsolute s.currentSlot.expiration,
    -- the minimum height is in the future
    .assertBeforeHeightAbsolute s.minHeight,
    spend,
    create,
    .receiveMessage coinPuzzle (.tagged 'i' slotValueHash) [.atom initiatorCoinId],
    createUpdate])

/-- What `initiate_update` computes when it does not raise. -/
structure InitiateRun (M : Machine) (K : Constants) (solution : Clvm) where
  s : InitiateSolution
  solution_eq : solution = s.toClvm
  initiatorCoinId : Bytes
  initiates : ownerCoinId M.hash K s.currentSlot.ownerLauncherId s.currentOwnerProof
    = some initiatorCoinId
  minHeight : Bytes
  minHeight_eq : s.minHeight = .atom minHeight
  slotValueHash : Bytes
  hashes_slot : M.hash.treeHash (updateSlotValue (.atom initiatorCoinId)
    (.ofInt (intFromBytes minHeight + K.relativeBlockHeight)) s.currentSlot.handleHash s.newData)
      = some slotValueHash
  counter : Bytes
  counter_eq : s.currentSlot.counter = .atom counter
  spent : Bytes
  spends : M.hash.slotCoin K.handleSlot1stCurryHash s.currentSlot.toClvm = some spent
  created : Bytes
  creates : M.hash.slotCoin K.handleSlot1stCurryHash (s.currentSlot.update
    (.ofInt (intFromBytes counter + 1))
    (.pair s.currentSlot.ownerLauncherId s.currentSlot.resolvedLauncherId)) = some created
  opened : Bytes
  opens : M.hash.getSlotPuzzleHash K.updateSlot1stCurryHash slotValueHash = some opened

/-- The conditions of `initiate_update`. -/
def InitiateRun.conditions {M : Machine} {K : Constants} {solution : Clvm}
    (r : InitiateRun M K solution) : List Condition :=
  [.assertBeforeSecondsAbsolute r.s.currentSlot.expiration,
    .assertBeforeHeightAbsolute r.s.minHeight,
    spendCoin r.spent,
    createHandleCoin K r.created,
    .receiveMessage coinPuzzle (.tagged 'i' r.slotValueHash) [.atom r.initiatorCoinId],
    .createCoin (.atom r.opened) .nil [.atom r.initiatorCoinId]]

theorem initiateUpdate_eq_some {M : Machine} {K : Constants} {truth solution : Clvm}
    {out : Clvm × List Condition} :
    initiateUpdate M K truth solution = some out ↔
      ∃ r : InitiateRun M K solution, out = (truth, r.conditions) := by
  constructor
  · intro h
    obtain ⟨s, hs, h1⟩ := bind_elim h
    obtain ⟨id, hid, h2⟩ := bind_elim h1
    obtain ⟨minExec, hminExec, h3⟩ := bind_elim h2
    obtain ⟨d, hd, h4⟩ := bind_elim h3
    obtain ⟨spend, hspend, h5⟩ := bind_elim h4
    obtain ⟨counter, hcounter, h6⟩ := bind_elim h5
    obtain ⟨create, hcreate, h7⟩ := bind_elim h6
    obtain ⟨createUpdate, hcreateUpdate, h8⟩ := bind_elim h7
    obtain ⟨spent, hspent, rfl⟩ := spendHandle_eq_some.1 hspend
    obtain ⟨created, hcreated, rfl⟩ := createHandle_eq_some.1 hcreate
    obtain ⟨c, hc, rfl⟩ := Clvm.increment_eq_some.1 hcounter
    obtain ⟨opened, hopened, hcreateUpdate'⟩ := bind_elim hcreateUpdate
    obtain ⟨x, y, hx, hy, rfl⟩ := Clvm.add_eq_some.1 hminExec
    obtain rfl := Clvm.atom.inj hy
    rw [intFromBytes_intToBytes] at hd
    exact ⟨⟨s, InitiateSolution.ofClvm?_eq_some.1 hs, id, hid, x, hx, d, hd, c, hc, spent, hspent,
      created, hcreated, opened, hopened⟩, by
        rw [← Option.some.inj h8, ← Option.some.inj hcreateUpdate']; rfl⟩
  · rintro ⟨r, rfl⟩
    have hminExec : r.s.minHeight.add (.ofInt K.relativeBlockHeight)
        = some (.ofInt (intFromBytes r.minHeight + K.relativeBlockHeight)) := by
      rw [r.minHeight_eq, Clvm.ofInt, Clvm.add_atom, intFromBytes_intToBytes]
    refine bind_intro (InitiateSolution.ofClvm?_eq_some.2 r.solution_eq) ?_
    refine bind_intro r.initiates (bind_intro hminExec (bind_intro r.hashes_slot ?_))
    refine bind_intro (spendHandle_eq_some.2 ⟨_, r.spends, rfl⟩) ?_
    refine bind_intro (by rw [r.counter_eq, Clvm.increment_atom]) ?_
    refine bind_intro (createHandle_eq_some.2 ⟨_, r.creates, rfl⟩) ?_
    exact bind_intro (bind_intro r.opens rfl) rfl

namespace InitiateRun

variable {M : Machine} {K : Constants} {solution : Clvm} (r : InitiateRun M K solution)

/-- The handle slot after the update was initiated. -/
def after : Clvm :=
  r.s.currentSlot.update (.ofInt (intFromBytes r.counter + 1))
    (.pair r.s.currentSlot.ownerLauncherId r.s.currentSlot.resolvedLauncherId)

/-- The update slot that was opened. -/
def updateSlot : Clvm :=
  updateSlotValue (.atom r.initiatorCoinId)
    (.ofInt (intFromBytes r.minHeight + K.relativeBlockHeight)) r.s.currentSlot.handleHash
    r.s.newData

theorem slotSpends_conditions : slotSpends r.conditions = {r.spent} := rfl

theorem zeroCoins_conditions : zeroCoins r.conditions = {r.created, r.opened} := rfl

/-- The owner asks in time, with a coin that is spent. -/
theorem holds {info : BlockInfo}
    (hbefore : (Condition.assertBeforeSecondsAbsolute r.s.currentSlot.expiration).Holds info)
    (hheight : (Condition.assertBeforeHeightAbsolute r.s.minHeight).Holds info)
    (hcoin : r.initiatorCoinId ∈ info.spentCoins) : ∀ c ∈ r.conditions, c.Holds info := by
  simp only [conditions, List.forall_mem_cons]
  exact ⟨hbefore, hheight, trivial, trivial, fun _ => ⟨_, hcoin, rfl⟩, trivial,
    fun c hc => absurd hc List.not_mem_nil⟩

/-- The handle slot gets its next counter, and an update slot is opened. -/
def footprint : Footprint := ⟨[(r.s.currentSlot.toClvm, r.after)], [], [r.updateSlot], []⟩

theorem footprint_matches : r.footprint.Matches M.hash K r.conditions where
  consumed := Represents.cons (f := Item.coin M.hash K) (a := .handle r.s.currentSlot.toClvm)
    r.spends (represents_zero _)
  created := by
    have hopened : Item.coin M.hash K (.update r.updateSlot) = some r.opened :=
      HashOracle.slotCoin_eq_some.2 ⟨_, r.hashes_slot, r.opens⟩
    exact Represents.cons (f := Item.coin M.hash K) (a := .handle r.after) r.creates
      (Represents.cons hopened (represents_zero _))

theorem footprint_lawful : r.footprint.Lawful := by
  refine Footprint.lawful_of_place ?_ (nodeOf_congr ..) [r.updateSlot] []
  rw [CurrentSlot.toClvm, r.counter_eq]
  exact isBump_handleSlotValue

end InitiateRun

/-! ## `execute_update` -/

/-- The solution of `execute_update`. -/
structure ExecuteSolution where
  minExecutionHeight : Clvm
  currentSlot : CurrentSlot
  newData : HandleSlotData
  currentOwnerProof : CompactCoinProof
  newOwnerInnerPuzzleHash : Clvm
  newResolvedInnerPuzzleHash : Clvm

namespace ExecuteSolution

def toClvm (s : ExecuteSolution) : Clvm :=
  .pair s.minExecutionHeight (.pair s.currentSlot.toClvm (.pair s.newData.toClvm
    (.pair (.pair s.currentOwnerProof.parentInfo
      (.pair s.currentOwnerProof.innerPuzzleHash s.currentOwnerProof.amount))
      (.pair s.newOwnerInnerPuzzleHash s.newResolvedInnerPuzzleHash))))

def ofClvm? : Clvm → Option ExecuteSolution
  | .pair minHeight (.pair (.pair counter (.pair (.pair k n) (.pair e (.pair o r))))
      (.pair (.pair no nr) (.pair (.pair parent (.pair inner amount)) (.pair op rp)))) =>
      some ⟨minHeight, ⟨counter, k, n, e, o, r⟩, ⟨no, nr⟩, ⟨parent, inner, amount⟩, op, rp⟩
  | _ => none

theorem ofClvm?_eq_some {v : Clvm} {s : ExecuteSolution} : ofClvm? v = some s ↔ v = s.toClvm := by
  constructor
  · intro h
    unfold ofClvm? at h
    split at h
    · cases h; rfl
    · cases h
  · rintro rfl; rfl

theorem toClvm_injective : Function.Injective toClvm := fun _ _ h =>
  Option.some.inj ((ofClvm?_eq_some.2 rfl).symm.trans (ofClvm?_eq_some.2 h))

end ExecuteSolution

/-- `execute_update.rue`. -/
def executeUpdate (M : Machine) (K : Constants) (truth solution : Clvm) :
    Option (Clvm × List Condition) := do
  let s ← ExecuteSolution.ofClvm? solution
  let slotValueHash ← M.hash.treeHash (updateSlotValue s.currentOwnerProof.parentInfo
    s.minExecutionHeight s.currentSlot.handleHash s.newData.toClvm)
  let ownerId ← ownerCoinId M.hash K s.currentSlot.ownerLauncherId s.currentOwnerProof
  let newOwner ← singletonPuzzleHash M.hash K s.newData.ownerLauncherId s.newOwnerInnerPuzzleHash
  let newResolved ← singletonPuzzleHash M.hash K s.newData.resolvedLauncherId
    s.newResolvedInnerPuzzleHash
  let spend ← spendHandle M.hash K s.currentSlot.toClvm
  let counter ← s.currentSlot.counter.increment
  let create ← createHandle M.hash K (s.currentSlot.update counter s.newData.toClvm)
  let spendUpdate ← M.hash.spendSlot K.updateSlot1stCurryHash slotValueHash
  return (truth, [
    -- can't update if expired
    .assertBeforeSecondsAbsolute s.currentSlot.expiration,
    -- the minimum execution height has passed
    .assertHeightAbsolute s.minExecutionHeight,
    spend,
    create,
    .receiveMessage coinPuzzle (.tagged 'u' slotValueHash) [.atom ownerId],
    .receiveMessage puzzlePuzzle (.tagged 'o' slotValueHash) [.atom newOwner],
    .receiveMessage puzzlePuzzle (.tagged 'r' slotValueHash) [.atom newResolved],
    spendUpdate])

/-- What `execute_update` computes when it does not raise. -/
structure ExecuteRun (M : Machine) (K : Constants) (solution : Clvm) where
  s : ExecuteSolution
  solution_eq : solution = s.toClvm
  slotValueHash : Bytes
  hashes_slot : M.hash.treeHash (updateSlotValue s.currentOwnerProof.parentInfo
    s.minExecutionHeight s.currentSlot.handleHash s.newData.toClvm) = some slotValueHash
  ownerId : Bytes
  executes : ownerCoinId M.hash K s.currentSlot.ownerLauncherId s.currentOwnerProof = some ownerId
  newOwner : Bytes
  hashes_newOwner : singletonPuzzleHash M.hash K s.newData.ownerLauncherId
    s.newOwnerInnerPuzzleHash = some newOwner
  newResolved : Bytes
  hashes_newResolved : singletonPuzzleHash M.hash K s.newData.resolvedLauncherId
    s.newResolvedInnerPuzzleHash = some newResolved
  counter : Bytes
  counter_eq : s.currentSlot.counter = .atom counter
  spent : Bytes
  spends : M.hash.slotCoin K.handleSlot1stCurryHash s.currentSlot.toClvm = some spent
  created : Bytes
  creates : M.hash.slotCoin K.handleSlot1stCurryHash (s.currentSlot.update
    (.ofInt (intFromBytes counter + 1)) s.newData.toClvm) = some created
  closed : Bytes
  closes : M.hash.getSlotPuzzleHash K.updateSlot1stCurryHash slotValueHash = some closed

/-- The conditions of `execute_update`. -/
def ExecuteRun.conditions {M : Machine} {K : Constants} {solution : Clvm}
    (r : ExecuteRun M K solution) : List Condition :=
  [.assertBeforeSecondsAbsolute r.s.currentSlot.expiration,
    .assertHeightAbsolute r.s.minExecutionHeight,
    spendCoin r.spent,
    createHandleCoin K r.created,
    .receiveMessage coinPuzzle (.tagged 'u' r.slotValueHash) [.atom r.ownerId],
    .receiveMessage puzzlePuzzle (.tagged 'o' r.slotValueHash) [.atom r.newOwner],
    .receiveMessage puzzlePuzzle (.tagged 'r' r.slotValueHash) [.atom r.newResolved],
    spendCoin r.closed]

theorem executeUpdate_eq_some {M : Machine} {K : Constants} {truth solution : Clvm}
    {out : Clvm × List Condition} :
    executeUpdate M K truth solution = some out ↔
      ∃ r : ExecuteRun M K solution, out = (truth, r.conditions) := by
  constructor
  · intro h
    obtain ⟨s, hs, h1⟩ := bind_elim h
    obtain ⟨d, hd, h2⟩ := bind_elim h1
    obtain ⟨id, hid, h3⟩ := bind_elim h2
    obtain ⟨newOwner, hnewOwner, h4⟩ := bind_elim h3
    obtain ⟨newResolved, hnewResolved, h5⟩ := bind_elim h4
    obtain ⟨spend, hspend, h6⟩ := bind_elim h5
    obtain ⟨counter, hcounter, h7⟩ := bind_elim h6
    obtain ⟨create, hcreate, h8⟩ := bind_elim h7
    obtain ⟨spendUpdate, hspendUpdate, h9⟩ := bind_elim h8
    obtain ⟨spent, hspent, rfl⟩ := spendHandle_eq_some.1 hspend
    obtain ⟨created, hcreated, rfl⟩ := createHandle_eq_some.1 hcreate
    obtain ⟨c, hc, rfl⟩ := Clvm.increment_eq_some.1 hcounter
    obtain ⟨closed, hclosed, hspendUpdate'⟩ := bind_elim hspendUpdate
    exact ⟨⟨s, ExecuteSolution.ofClvm?_eq_some.1 hs, d, hd, id, hid, newOwner, hnewOwner,
      newResolved, hnewResolved, c, hc, spent, hspent, created, hcreated, closed, hclosed⟩, by
        rw [← Option.some.inj h9, ← Option.some.inj hspendUpdate']; rfl⟩
  · rintro ⟨r, rfl⟩
    refine bind_intro (ExecuteSolution.ofClvm?_eq_some.2 r.solution_eq) ?_
    refine bind_intro r.hashes_slot (bind_intro r.executes ?_)
    refine bind_intro r.hashes_newOwner (bind_intro r.hashes_newResolved ?_)
    refine bind_intro (spendHandle_eq_some.2 ⟨_, r.spends, rfl⟩) ?_
    refine bind_intro (by rw [r.counter_eq, Clvm.increment_atom]) ?_
    refine bind_intro (createHandle_eq_some.2 ⟨_, r.creates, rfl⟩) ?_
    exact bind_intro (bind_intro r.closes rfl) rfl

namespace ExecuteRun

variable {M : Machine} {K : Constants} {solution : Clvm} (r : ExecuteRun M K solution)

/-- The handle slot after the update. -/
def after : Clvm :=
  r.s.currentSlot.update (.ofInt (intFromBytes r.counter + 1)) r.s.newData.toClvm

/-- The update slot that was closed. -/
def updateSlot : Clvm :=
  updateSlotValue r.s.currentOwnerProof.parentInfo r.s.minExecutionHeight
    r.s.currentSlot.handleHash r.s.newData.toClvm

theorem slotSpends_conditions : slotSpends r.conditions = {r.spent, r.closed} := rfl

/-- The owner executes in time, with a coin that is spent. -/
theorem holds {info : BlockInfo}
    (hbefore : (Condition.assertBeforeSecondsAbsolute r.s.currentSlot.expiration).Holds info)
    (hheight : (Condition.assertHeightAbsolute r.s.minExecutionHeight).Holds info)
    (hcoin : r.ownerId ∈ info.spentCoins) : ∀ c ∈ r.conditions, c.Holds info := by
  have hother {m : Clvm} {s : List Clvm} : (Condition.receiveMessage puzzlePuzzle m s).Holds info := by
    intro hmode
    cases hmode
  simp only [conditions, List.forall_mem_cons]
  exact ⟨hbefore, hheight, trivial, trivial, fun _ => ⟨_, hcoin, rfl⟩, hother, hother, trivial,
    fun c hc => absurd hc List.not_mem_nil⟩

/-- The handle slot gets its new data, and the update slot is closed. -/
def footprint : Footprint := ⟨[(r.s.currentSlot.toClvm, r.after)], [], [], [r.updateSlot]⟩

theorem footprint_matches : r.footprint.Matches M.hash K r.conditions where
  consumed := by
    have hclosed : Item.coin M.hash K (.update r.updateSlot) = some r.closed :=
      HashOracle.slotCoin_eq_some.2 ⟨_, r.hashes_slot, r.closes⟩
    exact Represents.cons (f := Item.coin M.hash K) (a := .handle r.s.currentSlot.toClvm) r.spends
      (Represents.cons hclosed (represents_zero _))
  created := Represents.cons (f := Item.coin M.hash K) (a := .handle r.after) r.creates
    (represents_zero _)

theorem footprint_lawful : r.footprint.Lawful := by
  refine Footprint.lawful_of_place ?_ (nodeOf_congr ..) [] [r.updateSlot]
  rw [CurrentSlot.toClvm, r.counter_eq]
  exact isBump_handleSlotValue

end ExecuteRun

end SlotMachine.Xchandles
