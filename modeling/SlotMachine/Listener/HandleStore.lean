import SlotMachine.Listener.ActionLog
import SlotMachine.Listener.RecordStore

/-!
# The handle slots of the listener

For each handle of each registry the listener stores the current slot, and the
slots it replaced as long as a reorganisation may bring them back.

* `HandleSlotRecord`, `pushHandleReplacement`, `rollbackHandleToBefore` — a record.
* `projectHandleSlot`, `projectHandleSlotsFromLogs`, `rollbackHandleSlots` — the store.
* `projectHandleSlotsFromLogs_eq_run` — a projection is a run of new states.
-/

namespace SlotMachine.Listener

open Retention

/-- `SlotParentLineage`. -/
structure SlotParentLineage where
  parentCoinId : Bytes
  parentParentId : Bytes
  parentInnerPuzzleHash : Bytes
  deriving DecidableEq

/-- `SlotParentLineage::default()`. -/
def SlotParentLineage.default : SlotParentLineage :=
  ⟨Bytes32.default, Bytes32.default, Bytes32.default⟩

/-- `StoredHandleSlot`. -/
structure StoredHandleSlot where
  registryLauncherId : Bytes
  handleHash : Bytes
  counter : ℕ
  neighborsLeft : Bytes
  neighborsRight : Bytes
  expiration : ℕ
  ownerLauncherId : Bytes
  resolvedLauncherId : Bytes
  parentCoinId : Bytes
  parentParentId : Bytes
  parentInnerPuzzleHash : Bytes
  confirmationHeight : ℕ
  deriving DecidableEq

/-- `HandleSlotRecord`. -/
abbrev HandleSlotRecord := Record StoredHandleSlot

/-- `prune_handle_history`. -/
def pruneHandleHistory : List StoredHandleSlot → ℕ → List StoredHandleSlot :=
  prune StoredHandleSlot.confirmationHeight retentionWindow

/-- `push_handle_replacement`. -/
def pushHandleReplacement : HandleSlotRecord → StoredHandleSlot → ℕ → HandleSlotRecord :=
  Record.replace StoredHandleSlot.confirmationHeight

/-- `rollback_handle_to_before`. -/
def rollbackHandleToBefore : HandleSlotRecord → ℕ → HandleSlotRecord :=
  Record.rollbackToBefore StoredHandleSlot.confirmationHeight

/-- `HandleSlotStore`. -/
abbrev HandleSlotStore := RecordStore StoredHandleSlot

/-- The slot that is stored for a value. -/
def storedHandleSlot (registryLauncherId : Bytes) (value : HandleSlotValue)
    (parent : SlotParentLineage) (confirmationHeight : ℕ) : StoredHandleSlot where
  registryLauncherId := registryLauncherId
  handleHash := value.handleHash
  counter := value.counter
  neighborsLeft := value.neighborsLeft
  neighborsRight := value.neighborsRight
  expiration := value.expiration
  ownerLauncherId := value.ownerLauncherId
  resolvedLauncherId := value.resolvedLauncherId
  parentCoinId := parent.parentCoinId
  parentParentId := parent.parentParentId
  parentInnerPuzzleHash := parent.parentInnerPuzzleHash
  confirmationHeight := confirmationHeight

/-- `project_handle_slot`. -/
def projectHandleSlot (handleSlots : HandleSlotStore) (registryLauncherId : Bytes)
    (value : HandleSlotValue) (parent : SlotParentLineage) (confirmationHeight : ℕ) :
    HandleSlotStore :=
  handleSlots.replace StoredHandleSlot.confirmationHeight (registryLauncherId, value.handleHash)
    (storedHandleSlot registryLauncherId value parent confirmationHeight) confirmationHeight

/-- `project_handle_slots_from_logs`. -/
def projectHandleSlotsFromLogs (valueHash : HandleSlotValue → Bytes)
    (handleSlots : HandleSlotStore) (registryLauncherId : Bytes) (height : ℕ)
    (logs : List ActionLog) (parentFor : Bytes → Option SlotParentLineage) : HandleSlotStore :=
  (logs.flatMap ActionLog.createdHandleSlots).foldl
    (fun store value => projectHandleSlot store registryLauncherId value
      ((parentFor (valueHash value)).getD .default) height) handleSlots

/-- The states that a projection stores. -/
def handleSlotOps (valueHash : HandleSlotValue → Bytes) (registryLauncherId : Bytes) (height : ℕ)
    (logs : List ActionLog) (parentFor : Bytes → Option SlotParentLineage) :
    List (StoreOp StoredHandleSlot) :=
  (logs.flatMap ActionLog.createdHandleSlots).map fun value =>
    .replace (registryLauncherId, value.handleHash) (storedHandleSlot registryLauncherId value
      ((parentFor (valueHash value)).getD .default) height)

theorem projectHandleSlotsFromLogs_eq_run (valueHash : HandleSlotValue → Bytes)
    (handleSlots : HandleSlotStore) (registryLauncherId : Bytes) (height : ℕ)
    (logs : List ActionLog) (parentFor : Bytes → Option SlotParentLineage) :
    projectHandleSlotsFromLogs valueHash handleSlots registryLauncherId height logs parentFor
      = handleSlots.run StoredHandleSlot.confirmationHeight
          (handleSlotOps valueHash registryLauncherId height logs parentFor) := by
  unfold projectHandleSlotsFromLogs handleSlotOps RecordStore.run
  rw [List.foldl_map]
  rfl

/-- The part of `rollback` that is about handle slots. -/
def rollbackHandleSlots : HandleSlotStore → ℕ → HandleSlotStore :=
  RecordStore.rollback StoredHandleSlot.confirmationHeight

end SlotMachine.Listener
