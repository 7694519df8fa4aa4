import SlotMachine.Clvm.Value
import SlotMachine.Ledger.Retention

/-!
# Stores of retained records

The listener has three stores of one kind: for each handle of each registry a
record with a current state and the states it replaced.  They differ in what a
state is.

* `Record`, `RecordStore` — a record, and the records by registry and handle hash.
* `RecordStore.replace`, `RecordStore.rollback` — a new state for one handle, and
  a reorganisation of all of them.
* `retained_replace_self`, `retained_rollback` — what they do to the states kept.
* `RecordStore.run` — a run of both; `current_run_store` — **each handle ends with its
  last state that was not rolled back**.
-/

namespace SlotMachine.Listener

open Retention

/-- How many heights a reorganisation may go back. -/
def retentionWindow : ℕ := 32

/-- The current state of a handle, and prior states for restoration. -/
structure Record (σ : Type) extends Retained σ where
  registryLauncherId : Bytes
  handleHash : Bytes

/-- Records by registry and handle hash. -/
abbrev RecordStore (σ : Type) := Bytes × Bytes → Option (Record σ)

/-- A record without states. -/
def Record.empty {σ : Type} (registryLauncherId handleHash : Bytes) : Record σ :=
  ⟨.empty, registryLauncherId, handleHash⟩

namespace RecordStore

variable {σ : Type}

/-- The states kept for a handle. -/
def retained (store : RecordStore σ) (key : Bytes × Bytes) : Retained σ :=
  ((store key).map Record.toRetained).getD .empty

/-- The current state of a handle. -/
def current (store : RecordStore σ) (key : Bytes × Bytes) : Option σ :=
  (store key).bind fun record => record.current

theorem current_eq (store : RecordStore σ) (key : Bytes × Bytes) :
    store.current key = (store.retained key).current := by
  unfold current retained
  cases store key <;> rfl

end RecordStore

variable {σ : Type} (height : σ → ℕ)

/-- Replace the current state of a record. -/
def Record.replace (record : Record σ) (newState : σ) (peak : ℕ) : Record σ :=
  { record with toRetained := record.toRetained.push height retentionWindow newState peak }

/-- Restore a record after a reorganisation. -/
def Record.rollbackToBefore (record : Record σ) (fromHeight : ℕ) : Record σ :=
  { record with toRetained := record.toRetained.rollback height fromHeight }

namespace RecordStore

/-- Give a handle a new state. -/
def replace (store : RecordStore σ) (key : Bytes × Bytes) (newState : σ) (peak : ℕ) :
    RecordStore σ :=
  let record := (store key).getD (.empty key.1 key.2)
  Function.update store key (some (record.replace height newState peak))

/-- Restore a record, and drop it when nothing is left. -/
def restore (record : Option (Record σ)) (fromHeight : ℕ) : Option (Record σ) :=
  match record with
  | none => none
  | some record =>
      let record := record.rollbackToBefore height fromHeight
      if record.current.isNone && record.history.isEmpty then none else some record

/-- Restore all records. -/
def rollback (store : RecordStore σ) (fromHeight : ℕ) : RecordStore σ :=
  fun key => restore height (store key) fromHeight

variable {height}

theorem retained_replace_self (store : RecordStore σ) (key : Bytes × Bytes) (newState : σ)
    (peak : ℕ) : (store.replace height key newState peak).retained key
      = (store.retained key).push height retentionWindow newState peak := by
  unfold replace retained
  rw [Function.update_self]
  cases store key <;> rfl

/-- The other handles are left alone. -/
theorem replace_of_ne (store : RecordStore σ) {key key' : Bytes × Bytes} (h : key' ≠ key)
    (newState : σ) (peak : ℕ) : store.replace height key newState peak key' = store key' :=
  Function.update_of_ne h ..

theorem retained_replace_of_ne (store : RecordStore σ) {key key' : Bytes × Bytes} (h : key' ≠ key)
    (newState : σ) (peak : ℕ) :
    (store.replace height key newState peak).retained key' = store.retained key' := by
  unfold retained
  rw [replace_of_ne store h]

/-- A record that is dropped has nothing left. -/
theorem retained_restore (record : Option (Record σ)) (fromHeight : ℕ) :
    ((restore height record fromHeight).map Record.toRetained).getD .empty
      = ((record.map Record.toRetained).getD .empty).rollback height fromHeight := by
  cases record with
  | none => rfl
  | some record =>
      unfold restore
      by_cases hgone : ((record.rollbackToBefore height fromHeight).current.isNone
          && (record.rollbackToBefore height fromHeight).history.isEmpty) = true
      · simp only [if_pos hgone]
        rw [Bool.and_eq_true, Option.isNone_iff_eq_none, List.isEmpty_iff] at hgone
        show (Retained.mk none [] : Retained σ)
          = (record.rollbackToBefore height fromHeight).toRetained
        rw [← hgone.1, ← hgone.2]
      · simp only [if_neg hgone]
        rfl

theorem retained_rollback (store : RecordStore σ) (fromHeight : ℕ) (key : Bytes × Bytes) :
    (store.rollback height fromHeight).retained key
      = (store.retained key).rollback height fromHeight :=
  retained_restore (store key) fromHeight

end RecordStore

/-! ## Runs of a store -/

/-- A new state for a handle, or a reorganisation. -/
inductive StoreOp (σ : Type) where
  | replace (key : Bytes × Bytes) (newState : σ)
  | rollback (fromHeight : ℕ)

/-- What an operation on the store does to one handle. -/
def StoreOp.on (key : Bytes × Bytes) : StoreOp σ → Option (Op σ)
  | .replace key' newState => if key' = key then some (.push newState) else none
  | .rollback fromHeight => some (.rollback fromHeight)

/-- What the operations on the store do to one handle. -/
def opsOn (key : Bytes × Bytes) (ops : List (StoreOp σ)) : List (Op σ) :=
  ops.filterMap (StoreOp.on key)

namespace RecordStore

/-- One operation; a new state is stored at the height of its confirmation. -/
def apply (store : RecordStore σ) : StoreOp σ → RecordStore σ
  | .replace key newState => store.replace height key newState (height newState)
  | .rollback fromHeight => store.rollback height fromHeight

/-- All operations, the first one first. -/
def run (store : RecordStore σ) (ops : List (StoreOp σ)) : RecordStore σ :=
  ops.foldl (apply height) store

/-- A store without records. -/
def empty : RecordStore σ := fun _ => none

variable {height}

/-- A handle sees the operations that are about it. -/
theorem retained_run (store : RecordStore σ) (ops : List (StoreOp σ)) (key : Bytes × Bytes) :
    (store.run height ops).retained key
      = (store.retained key).run height retentionWindow (opsOn key ops) := by
  induction ops generalizing store with
  | nil => rfl
  | cons op ops ih =>
      show ((store.apply height op).run height ops).retained key = _
      rw [ih]
      cases op with
      | rollback fromHeight =>
          show ((store.rollback height fromHeight).retained key).run height retentionWindow _ = _
          rw [retained_rollback]
          rfl
      | replace key' newState =>
          show ((store.replace height key' newState (height newState)).retained key).run
            height retentionWindow _ = _
          by_cases hkey : key' = key
          · have hops : opsOn key (.replace key' newState :: ops)
                = .push newState :: opsOn key ops := by
              simp [opsOn, StoreOp.on, hkey]
            subst hkey
            rw [hops, retained_replace_self]
            rfl
          · have hops : opsOn key (.replace key' newState :: ops) = opsOn key ops := by
              simp [opsOn, StoreOp.on, hkey]
            rw [hops, retained_replace_of_ne store (Ne.symm hkey)]

/-- **A run stores no state but what it was given for the handle.** -/
theorem mem_of_current_run {ops : List (StoreOp σ)} {key : Bytes × Bytes} {s : σ}
    (h : (empty.run height ops).current key = some s) : .replace key s ∈ ops := by
  rw [current_eq, retained_run] at h
  have hversion : s ∈ ((retained empty key).run height retentionWindow (opsOn key ops)).versions :=
    List.mem_append_right _ (Option.mem_toList.2 h)
  rcases Retained.mem_of_mem_versions_run hversion with hempty | hpush
  · cases hempty
  · obtain ⟨op, hop, heq⟩ := List.mem_filterMap.1 hpush
    cases op with
    | rollback fromHeight => cases heq
    | replace key' newState =>
        by_cases hkey : key' = key
        · rw [StoreOp.on, if_pos hkey] at heq
          cases heq
          rwa [hkey] at hop
        · rw [StoreOp.on, if_neg hkey] at heq
          cases heq

/-- **Each handle ends with its last state that no later reorganisation orphaned.** -/
theorem current_run_store {ops : List (StoreOp σ)} {key : Bytes × Bytes}
    (hops : Admissible height retentionWindow 0 0 (opsOn key ops)) :
    ((empty.run height ops).current key) = (survivors height (opsOn key ops)).getLast? := by
  rw [current_eq, retained_run]
  exact current_run hops

end RecordStore

end SlotMachine.Listener
