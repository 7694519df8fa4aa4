import SlotMachine.Clvm.Value

/-!
# The action logs of a registry spend

What the driver reports about a spend of the XCHandles registry: one entry for
each action, with the slots it spent and created.

* `HandleSlotValue`, `UpdateSlotValue` — the values of slots.
* `ActionLog` — an entry; `ActionLog.createdHandleSlots`, `ActionLog.spentHandleSlots`.
-/

namespace SlotMachine.Listener

/-- `Bytes32::default()`. -/
def Bytes32.default : Bytes := List.replicate 32 0

/-- `XchandlesHandleSlotValue`. -/
structure HandleSlotValue where
  counter : ℕ
  handleHash : Bytes
  neighborsLeft : Bytes
  neighborsRight : Bytes
  expiration : ℕ
  ownerLauncherId : Bytes
  resolvedLauncherId : Bytes
  deriving DecidableEq

/-- `XchandlesUpdateSlotValue`. -/
structure UpdateSlotValue where
  updateInitiatorCoinId : Bytes
  minHeight : ℕ
  handleHash : Bytes
  newOwnerLauncherId : Bytes
  newResolvedLauncherId : Bytes
  deriving DecidableEq

/-- What an entry says of the precommit value that was consumed. -/
structure PrecommitReveal where
  handle : String
  secret : Bytes
  deriving DecidableEq

/-- The puzzle hashes of the owner and of the resolved singleton. -/
structure ApprovalPuzzles where
  ownerFullPuzzleHash : Bytes
  resolvedFullPuzzleHash : Option Bytes
  ownerInnerPuzzleHash : Bytes
  resolvedInnerPuzzleHash : Bytes
  deriving DecidableEq

/-- `XchandlesRegisterActionLog`. -/
structure RegisterActionLog where
  spentLeftSlot : HandleSlotValue
  spentRightSlot : HandleSlotValue
  createdLeftSlot : HandleSlotValue
  createdHandleSlot : HandleSlotValue
  createdRightSlot : HandleSlotValue
  precommitValue : PrecommitReveal
  totalPrice : ℕ
  puzzles : ApprovalPuzzles
  deriving DecidableEq

/-- `XchandlesExpireActionLog`. -/
structure ExpireActionLog where
  spentSlot : HandleSlotValue
  createdSlot : HandleSlotValue
  precommitValue : PrecommitReveal
  totalPrice : ℕ
  puzzles : ApprovalPuzzles
  deriving DecidableEq

/-- `XchandlesInitiateUpdateActionLog`. -/
structure InitiateUpdateActionLog where
  spentSlot : HandleSlotValue
  createdHandleSlot : HandleSlotValue
  createdUpdateSlot : UpdateSlotValue
  deriving DecidableEq

/-- `XchandlesExecuteUpdateActionLog`. -/
structure ExecuteUpdateActionLog where
  spentHandleSlot : HandleSlotValue
  spentUpdateSlot : UpdateSlotValue
  createdSlot : HandleSlotValue
  puzzles : ApprovalPuzzles
  deriving DecidableEq

/-- `XchandlesActionLog`. -/
inductive ActionLog where
  | register (e : RegisterActionLog)
  | expire (e : ExpireActionLog)
  | extend (spentSlot createdSlot : HandleSlotValue)
  | oracle (spentSlot createdSlot : HandleSlotValue)
  | initiateUpdate (e : InitiateUpdateActionLog)
  | executeUpdate (e : ExecuteUpdateActionLog)
  | refund (spentSlot createdSlot : Option HandleSlotValue)
  | delegatedState
  deriving DecidableEq

namespace ActionLog

/-- `extend_created_handle_slots`. -/
def createdHandleSlots : ActionLog → List HandleSlotValue
  | register e => [e.createdLeftSlot, e.createdHandleSlot, e.createdRightSlot]
  | expire e => [e.createdSlot]
  | extend _ created => [created]
  | oracle _ created => [created]
  | initiateUpdate e => [e.createdHandleSlot]
  | executeUpdate e => [e.createdSlot]
  | refund _ created => created.toList
  | delegatedState => []

/-- The handle slots the action spent. -/
def spentHandleSlots : ActionLog → List HandleSlotValue
  | register e => [e.spentLeftSlot, e.spentRightSlot]
  | expire e => [e.spentSlot]
  | extend spent _ => [spent]
  | oracle spent _ => [spent]
  | initiateUpdate e => [e.spentSlot]
  | executeUpdate e => [e.spentHandleSlot]
  | refund spent _ => spent.toList
  | delegatedState => []

end ActionLog

end SlotMachine.Listener
