import SlotMachine.Listener.ActionLog
import SlotMachine.Listener.RecordStore

/-!
# The pending updates of the listener

For each handle the listener stores the update that was initiated last, until an
action takes it away.

* `PendingUpdateRecord`, `pushPendingReplacement`, `clearPendingCurrent`,
  `rollbackPendingToBefore` — a record.
* `clearPendingForHandle`, `projectPendingUpdatesFromLogs`, `rollbackPendingUpdates` — the
  store.
* `retained_pendingChanges` — what updates and clears of one handle do to the states kept;
  `retained_projectPendingUpdatesFromLogs` says which ones a projection makes.
-/

namespace SlotMachine.Listener

open Retention

/-- `StoredPendingUpdate`. -/
structure StoredPendingUpdate where
  registryLauncherId : Bytes
  handleHash : Bytes
  newOwnerLauncherId : Bytes
  newResolvedLauncherId : Bytes
  updateConfirmationHeight : ℕ
  minimumExecutionHeight : ℕ
  updateInitiatorCoinId : Bytes
  deriving DecidableEq

/-- `PendingUpdateRecord`. -/
abbrev PendingUpdateRecord := Record StoredPendingUpdate

/-- `prune_pending_history`. -/
def prunePendingHistory : List StoredPendingUpdate → ℕ → List StoredPendingUpdate :=
  prune StoredPendingUpdate.updateConfirmationHeight retentionWindow

/-- `push_pending_replacement`. -/
def pushPendingReplacement : PendingUpdateRecord → StoredPendingUpdate → ℕ → PendingUpdateRecord :=
  Record.replace StoredPendingUpdate.updateConfirmationHeight

/-- `clear_pending_current`. -/
def clearPendingCurrent (record : PendingUpdateRecord) (peak : ℕ) : PendingUpdateRecord :=
  { record with
    toRetained := record.toRetained.clear StoredPendingUpdate.updateConfirmationHeight
      retentionWindow peak }

/-- `rollback_pending_to_before`. -/
def rollbackPendingToBefore : PendingUpdateRecord → ℕ → PendingUpdateRecord :=
  Record.rollbackToBefore StoredPendingUpdate.updateConfirmationHeight

/-! ## The store -/

/-- `PendingUpdateStore`. -/
abbrev PendingUpdateStore := RecordStore StoredPendingUpdate

/-- `clear_pending_for_handle`. -/
def clearPendingForHandle (pendingUpdates : PendingUpdateStore) (key : Bytes × Bytes)
    (height : ℕ) : PendingUpdateStore :=
  match pendingUpdates key with
  | none => pendingUpdates
  | some record =>
      if record.current.isNone then pendingUpdates
      else
        let record := clearPendingCurrent record height
        Function.update pendingUpdates key
          (if record.current.isNone && record.history.isEmpty then none else some record)

/-- The update that is stored when one is initiated. -/
def storedPendingUpdate (registryLauncherId : Bytes) (height : ℕ) (value : UpdateSlotValue) :
    StoredPendingUpdate where
  registryLauncherId := registryLauncherId
  handleHash := value.handleHash
  newOwnerLauncherId := value.newOwnerLauncherId
  newResolvedLauncherId := value.newResolvedLauncherId
  updateConfirmationHeight := height
  minimumExecutionHeight := value.minHeight
  updateInitiatorCoinId := value.updateInitiatorCoinId

/-- What a log does to pending updates: of which handle, and the update initiated or
none when the pending one is cleared. -/
def pendingChange (registryLauncherId : Bytes) (height : ℕ) :
    ActionLog → Option (Bytes × Option StoredPendingUpdate)
  | .initiateUpdate e => some (e.createdUpdateSlot.handleHash,
      some (storedPendingUpdate registryLauncherId height e.createdUpdateSlot))
  | .executeUpdate e => some (e.spentUpdateSlot.handleHash, none)
  -- any other action that spends the handle slot without creating a replacement
  -- update invalidates the pending executor path
  | .extend spentSlot _ => some (spentSlot.handleHash, none)
  | .oracle spentSlot _ => some (spentSlot.handleHash, none)
  | .expire e => some (e.spentSlot.handleHash, none)
  | .refund spentSlot _ => spentSlot.map fun spent => (spent.handleHash, none)
  | .register _ => none
  | .delegatedState => none

/-- One round of `project_pending_updates_from_logs`. -/
def projectPendingUpdate (pendingUpdates : PendingUpdateStore) (registryLauncherId : Bytes)
    (height : ℕ) : Bytes × Option StoredPendingUpdate → PendingUpdateStore
  | (handleHash, some stored) =>
      pendingUpdates.replace StoredPendingUpdate.updateConfirmationHeight
        (registryLauncherId, handleHash) stored height
  | (handleHash, none) =>
      clearPendingForHandle pendingUpdates (registryLauncherId, handleHash) height

/-- `project_pending_updates_from_logs`. -/
def projectPendingUpdatesFromLogs (pendingUpdates : PendingUpdateStore)
    (registryLauncherId : Bytes) (height : ℕ) (logs : List ActionLog) : PendingUpdateStore :=
  (logs.filterMap (pendingChange registryLauncherId height)).foldl
    (fun store change => projectPendingUpdate store registryLauncherId height change)
    pendingUpdates

/-- The part of `rollback` that is about pending updates. -/
def rollbackPendingUpdates : PendingUpdateStore → ℕ → PendingUpdateStore :=
  RecordStore.rollback StoredPendingUpdate.updateConfirmationHeight

/-! ## What the operations do to the states kept -/

/-- A record that was cleared has a history, so it is never dropped. -/
theorem clear_ne_empty {w peak : ℕ} {kept : Retained StoredPendingUpdate}
    {s : StoredPendingUpdate} (hs : kept.current = some s)
    (hempty : (kept.clear StoredPendingUpdate.updateConfirmationHeight w peak).history = []) :
    False := by
  rw [Retained.versions_clear_of_some hs] at hempty
  obtain ⟨hold, hrecent⟩ := List.append_eq_nil_iff.1 hempty
  have hmem : s ∈ kept.versions := by
    unfold Retained.versions
    rw [hs]
    exact List.mem_append_right _ (List.mem_singleton_self s)
  by_cases hlt : s.updateConfirmationHeight < peak - w
  · -- an old version leaves a predecessor
    have hkept : s ∈ kept.versions.filter fun t =>
        decide (t.updateConfirmationHeight < peak - w) :=
      List.mem_filter.2 ⟨hmem, decide_eq_true hlt⟩
    rw [Option.toList_eq_nil_iff, List.getLast?_eq_none_iff] at hold
    rw [hold] at hkept
    exact absurd hkept List.not_mem_nil
  · have hkept : s ∈ kept.versions.filter fun t =>
        decide (peak - w ≤ t.updateConfirmationHeight) :=
      List.mem_filter.2 ⟨hmem, decide_eq_true (not_lt.1 hlt)⟩
    rw [hrecent] at hkept
    exact absurd hkept List.not_mem_nil

/-- Clearing a handle clears the states kept for it. -/
theorem retained_clearPendingForHandle (store : PendingUpdateStore) (key : Bytes × Bytes)
    (height : ℕ) :
    (clearPendingForHandle store key height).retained key
      = (store.retained key).clear StoredPendingUpdate.updateConfirmationHeight
          retentionWindow height := by
  unfold clearPendingForHandle RecordStore.retained
  cases hrecord : store key with
  | none =>
      show ((store key).map Record.toRetained).getD .empty = _
      rw [hrecord]
      rfl
  | some record =>
      cases hc : record.current with
      | none =>
          simp only [hc, Option.isNone_none, if_true, hrecord, Option.map_some, Option.getD_some]
          rw [Retained.versions_clear_of_none hc]
      | some s =>
          have hkept : ((clearPendingCurrent record height).current.isNone
              && (clearPendingCurrent record height).history.isEmpty) = false := by
            rw [Bool.and_eq_false_iff]
            right
            rw [List.isEmpty_eq_false_iff]
            intro hempty
            exact clear_ne_empty hc hempty
          simp only [hc, Option.isNone_some, Bool.false_eq_true, if_false, Function.update_self,
            hkept, Option.map_some, Option.getD_some]
          rfl

/-! ## Runs on one handle -/

/-- An update of a handle is initiated or cleared. -/
def pendingStep (key : Bytes × Bytes) (pendingUpdates : PendingUpdateStore) :
    Change StoredPendingUpdate → PendingUpdateStore
  | .push stored => pendingUpdates.replace StoredPendingUpdate.updateConfirmationHeight key
      stored stored.updateConfirmationHeight
  | .clear height => clearPendingForHandle pendingUpdates key height

/-- Updates of a handle are initiated and cleared, the first one first. -/
def pendingChanges (key : Bytes × Bytes) (pendingUpdates : PendingUpdateStore)
    (changes : List (Change StoredPendingUpdate)) : PendingUpdateStore :=
  changes.foldl (pendingStep key) pendingUpdates

theorem retained_pendingChanges (key : Bytes × Bytes) (store : PendingUpdateStore)
    (changes : List (Change StoredPendingUpdate)) :
    (pendingChanges key store changes).retained key
      = (store.retained key).changes StoredPendingUpdate.updateConfirmationHeight
          retentionWindow changes := by
  induction changes generalizing store with
  | nil => rfl
  | cons change changes ih =>
      show (pendingChanges key (pendingStep key store change) changes).retained key = _
      rw [ih]
      cases change with
      | push stored =>
          show ((store.replace _ key stored _).retained key).changes _ _ _ = _
          rw [RecordStore.retained_replace_self]
          rfl
      | clear height =>
          show ((clearPendingForHandle store key height).retained key).changes _ _ _ = _
          rw [retained_clearPendingForHandle]
          rfl

/-! ## Projections -/

/-- An update that is initiated, or a clear at a height. -/
def changeOf (height : ℕ) : Option StoredPendingUpdate → Change StoredPendingUpdate
  | some stored => .push stored
  | none => .clear height

/-- What a log does to one handle. -/
def changeOn (handleHash : Bytes) (height : ℕ) (change : Bytes × Option StoredPendingUpdate) :
    Option (Change StoredPendingUpdate) :=
  if change.1 = handleHash then some (changeOf height change.2) else none

/-- The other handles are left alone. -/
theorem retained_clearPendingForHandle_of_ne (store : PendingUpdateStore)
    {key key' : Bytes × Bytes} (h : key' ≠ key) (height : ℕ) :
    (clearPendingForHandle store key height).retained key' = store.retained key' := by
  have hsame : clearPendingForHandle store key height key' = store key' := by
    unfold clearPendingForHandle
    cases hrecord : store key with
    | none => rfl
    | some record =>
        by_cases hnone : record.current.isNone = true
        · simp only [if_pos hnone]
        · simp only [if_neg hnone, Function.update_of_ne h]
  unfold RecordStore.retained
  rw [hsame]

theorem retained_projectPendingUpdate (store : PendingUpdateStore) (registryLauncherId : Bytes)
    {height : ℕ} {change : Bytes × Option StoredPendingUpdate}
    (hheight : ∀ stored ∈ change.2, stored.updateConfirmationHeight = height)
    (handleHash : Bytes) :
    (projectPendingUpdate store registryLauncherId height change).retained
        (registryLauncherId, handleHash)
      = (store.retained (registryLauncherId, handleHash)).changes
          StoredPendingUpdate.updateConfirmationHeight retentionWindow
          (changeOn handleHash height change).toList := by
  obtain ⟨changed, o⟩ := change
  by_cases hkey : changed = handleHash
  · subst hkey
    have hchange : changeOn changed height (changed, o) = some (changeOf height o) := if_pos rfl
    rw [hchange]
    cases o with
    | some stored =>
        have hpushed : (store.replace StoredPendingUpdate.updateConfirmationHeight
            (registryLauncherId, changed) stored height).retained (registryLauncherId, changed)
              = (store.retained (registryLauncherId, changed)).push
                  StoredPendingUpdate.updateConfirmationHeight retentionWindow stored height :=
          RecordStore.retained_replace_self ..
        rw [projectPendingUpdate, hpushed, ← hheight stored rfl]
        rfl
    | none => exact retained_clearPendingForHandle ..
  · have hne : (registryLauncherId, handleHash) ≠ (registryLauncherId, changed) :=
      fun heq => hkey (Prod.mk.inj heq).2.symm
    have hchange : changeOn handleHash height (changed, o) = none := if_neg hkey
    rw [hchange]
    cases o with
    | some stored => exact RecordStore.retained_replace_of_ne store hne stored height
    | none => exact retained_clearPendingForHandle_of_ne store hne height

/-- An update is stored at the height of its block. -/
theorem pendingChange_height {registryLauncherId : Bytes} {height : ℕ} {log : ActionLog}
    {change : Bytes × Option StoredPendingUpdate}
    (h : pendingChange registryLauncherId height log = some change) :
    ∀ stored ∈ change.2, stored.updateConfirmationHeight = height := by
  intro stored hstored
  cases log with
  | initiateUpdate e =>
      cases h
      rw [← Option.some.inj hstored]
      rfl
  | refund spent created =>
      obtain ⟨slot, -, rfl⟩ := Option.map_eq_some_iff.1 h
      cases hstored
  | executeUpdate e | extend spent created | oracle spent created | expire e =>
      cases h
      cases hstored
  | register e | delegatedState => cases h

/-- **A projection changes the pending update of a handle** as the logs about it say. -/
theorem retained_projectPendingUpdatesFromLogs (store : PendingUpdateStore)
    (registryLauncherId : Bytes) (height : ℕ) (logs : List ActionLog) (handleHash : Bytes) :
    (projectPendingUpdatesFromLogs store registryLauncherId height logs).retained
        (registryLauncherId, handleHash)
      = (store.retained (registryLauncherId, handleHash)).changes
          StoredPendingUpdate.updateConfirmationHeight retentionWindow
          ((logs.filterMap (pendingChange registryLauncherId height)).filterMap
            (changeOn handleHash height)) := by
  have hheights : ∀ change ∈ logs.filterMap (pendingChange registryLauncherId height),
      ∀ stored ∈ change.2, stored.updateConfirmationHeight = height := by
    intro change hchange
    obtain ⟨log, -, hlog⟩ := List.mem_filterMap.1 hchange
    exact pendingChange_height hlog
  unfold projectPendingUpdatesFromLogs
  generalize logs.filterMap (pendingChange registryLauncherId height) = changes at hheights ⊢
  induction changes generalizing store with
  | nil => rfl
  | cons change changes ih =>
      have hstep := retained_projectPendingUpdate store registryLauncherId
        (hheights change List.mem_cons_self) handleHash
      rw [List.foldl_cons, ih _ fun c hc => hheights c (List.mem_cons_of_mem _ hc), hstep]
      cases hchange : changeOn handleHash height change with
      | none =>
          rw [List.filterMap_cons_none hchange]
          rfl
      | some c =>
          rw [List.filterMap_cons_some hchange]
          rfl

end SlotMachine.Listener
