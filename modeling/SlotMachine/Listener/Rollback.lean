import SlotMachine.Listener.HandleStore
import SlotMachine.Listener.PendingStore
import SlotMachine.Listener.RegistrationStore

/-!
# Rollback and replay

After a reorganisation the listener should hold what it would hold had it only
seen what is below the fork.

* `current_eq_last_survivor` — **handle slots and registrations**: after new states and
  rollbacks in any order each handle has its last state that no later rollback orphaned.
* `rollback_pending_eq_replay_iff` — **pending updates**: the height of a clear is not
  recorded, so a rollback is a replay only if the last change below the fork is not one.
-/

namespace SlotMachine.Listener

open Retention

/-- **Rollback is prefix replay.**  When the heights of a handle do not decrease between
rollbacks, start again at the height rolled back to, and no rollback leaves the window, its
current state is the last one that no later rollback orphaned, and none when there is none. -/
theorem current_eq_last_survivor :
    (∀ (key : Bytes × Bytes) (ops : List (StoreOp StoredHandleSlot)),
      Admissible StoredHandleSlot.confirmationHeight retentionWindow 0 0 (opsOn key ops) →
      (RecordStore.run StoredHandleSlot.confirmationHeight .empty ops).current key
        = (survivors StoredHandleSlot.confirmationHeight (opsOn key ops)).getLast?) ∧
    (∀ (key : Bytes × Bytes) (ops : List (StoreOp StoredRegistration)),
      Admissible StoredRegistration.confirmationHeight retentionWindow 0 0 (opsOn key ops) →
      (RecordStore.run StoredRegistration.confirmationHeight .empty ops).current key
        = (survivors StoredRegistration.confirmationHeight (opsOn key ops)).getLast?) :=
  ⟨fun _ _ hops => RecordStore.current_run_store hops,
    fun _ _ hops => RecordStore.current_run_store hops⟩

namespace RollbackExample

/-- A handle. -/
def key : Bytes × Bytes := ([1], [2])

/-- A slot of the handle, confirmed at a height. -/
def slot (height : ℕ) : StoredHandleSlot where
  registryLauncherId := key.1
  handleHash := key.2
  counter := height
  neighborsLeft := []
  neighborsRight := []
  expiration := 0
  ownerLauncherId := []
  resolvedLauncherId := []
  parentCoinId := []
  parentParentId := []
  parentInnerPuzzleHash := []
  confirmationHeight := height

/-- A registration of the handle, confirmed at a height. -/
def registration (height : ℕ) : StoredRegistration where
  registryLauncherId := key.1
  handle := "handle"
  handleHash := key.2
  registrationSecret := []
  actionKind := .register
  protocolFee := 1
  confirmationHeight := height

/-- An update of the handle, initiated at a height. -/
def pending (height : ℕ) : StoredPendingUpdate where
  registryLauncherId := key.1
  handleHash := key.2
  newOwnerLauncherId := [3]
  newResolvedLauncherId := [4]
  updateConfirmationHeight := height
  minimumExecutionHeight := height
  updateInitiatorCoinId := [5]

end RollbackExample

open RollbackExample in
/-- A rollback restores the state before, and a later state replaces it again. -/
theorem current_eq_last_survivor_restored :
    (RecordStore.run StoredHandleSlot.confirmationHeight .empty
        [.replace key (slot 100), .replace key (slot 105), .rollback 103]).current key
      = some (slot 100) ∧
    (RecordStore.run StoredRegistration.confirmationHeight .empty
        [.replace key (registration 100), .replace key (registration 105), .rollback 103,
          .replace key (registration 103)]).current key = some (registration 103) :=
  ⟨current_eq_last_survivor.1 key _ (by decide),
    current_eq_last_survivor.2 key _ (by decide)⟩

/-! ## Pending updates -/

open StoredPendingUpdate in
/-- **A rollback of a pending update is a replay of what is below** exactly if no update was
initiated there, or the last change there is an update that was initiated. -/
theorem rollback_pending_eq_replay_iff (key : Bytes × Bytes)
    (changes : List (Change StoredPendingUpdate))
    (hchanges : Chronological updateConfirmationHeight changes) (fromHeight : ℕ)
    (hwindow : ∀ c ∈ changes, c.heightOf updateConfirmationHeight ≤ fromHeight + retentionWindow) :
    (rollbackPendingUpdates (pendingChanges key .empty changes) fromHeight).current key
        = (pendingChanges key .empty
            (changesBelow updateConfirmationHeight fromHeight changes)).current key ↔
      (∀ c ∈ changesBelow updateConfirmationHeight fromHeight changes, c.pushed = none) ∨
        ∃ c ∈ (changesBelow updateConfirmationHeight fromHeight changes).getLast?,
          c.pushed.isSome := by
  have hcode : (rollbackPendingUpdates (pendingChanges key .empty changes) fromHeight).current key
      = ((Retained.empty.changes updateConfirmationHeight retentionWindow changes).rollback
          updateConfirmationHeight fromHeight).current := by
    unfold rollbackPendingUpdates
    rw [RecordStore.current_eq, RecordStore.retained_rollback, retained_pendingChanges]
    rfl
  have hreplay : (pendingChanges key .empty
        (changesBelow updateConfirmationHeight fromHeight changes)).current key
      = (Retained.empty.changes updateConfirmationHeight retentionWindow
          (changesBelow updateConfirmationHeight fromHeight changes)).current := by
    rw [RecordStore.current_eq, retained_pendingChanges]
    rfl
  rw [hcode, hreplay]
  exact current_rollback_eq_replay_iff hchanges hwindow

open RollbackExample StoredPendingUpdate in
/-- An update that a rollback takes away, the one before is restored. -/
theorem rollback_pending_eq_replay_iff_restored :
    (rollbackPendingUpdates (pendingChanges key .empty
        [.push (pending 100), .clear 110, .push (pending 112)]) 105).current key
      = (pendingChanges key .empty [.push (pending 100)]).current key :=
  (rollback_pending_eq_replay_iff key
    [.push (pending 100), .clear 110, .push (pending 112)] (by decide) 105 (by decide)).2
      (by decide)

open RollbackExample StoredPendingUpdate in
/-- **An update that was cleared below the fork comes back.** -/
theorem rollback_pending_resurrects :
    Chronological updateConfirmationHeight [.push (pending 100), .clear 105] ∧
    (∀ c ∈ [Change.push (pending 100), .clear 105],
      c.heightOf updateConfirmationHeight ≤ 110 + retentionWindow) ∧
    (rollbackPendingUpdates (pendingChanges key .empty
        [.push (pending 100), .clear 105]) 110).current key = some (pending 100) ∧
    changesBelow updateConfirmationHeight 110 [.push (pending 100), .clear 105]
      = [.push (pending 100), .clear 105] ∧
    (pendingChanges key .empty [.push (pending 100), .clear 105]).current key = none := by
  refine ⟨by decide, by decide, rfl, rfl, rfl⟩

end SlotMachine.Listener
