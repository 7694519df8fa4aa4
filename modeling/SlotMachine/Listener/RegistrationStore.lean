import Mathlib.Data.List.DropRight
import SlotMachine.Listener.ActionLog
import SlotMachine.Listener.RecordStore

/-!
# The registrations of the listener

For each handle the listener stores the latest registration or expiry purchase,
and for each registry how many handles were registered and the most recent of
these events.

* `RegistrationRecord`, `pushRegistrationReplacement`, `rollbackRegistrationToBefore` — a record.
* `RegistryRegistrationStats`, `pushRegistrationEvent`, `rollbackStatsToBefore` — a registry.
* `projectRegistrationsFromLogs`, `rollbackRegistrations` — both stores.
* `records_projectRegistrationsFromLogs` — a projection of the facts is a run of new states.
-/

namespace SlotMachine.Listener

open Retention

/-- `RegistrationActionKind`. -/
inductive RegistrationActionKind where
  | register
  | expire
  deriving DecidableEq

/-- `StoredRegistration`. -/
structure StoredRegistration where
  registryLauncherId : Bytes
  handle : String
  handleHash : Bytes
  registrationSecret : Bytes
  actionKind : RegistrationActionKind
  protocolFee : ℕ
  confirmationHeight : ℕ
  deriving DecidableEq

/-- `RegistrationRecord`. -/
abbrev RegistrationRecord := Record StoredRegistration

/-- `prune_registration_history`. -/
def pruneRegistrationHistory : List StoredRegistration → ℕ → List StoredRegistration :=
  prune StoredRegistration.confirmationHeight retentionWindow

/-- `push_registration_replacement`. -/
def pushRegistrationReplacement : RegistrationRecord → StoredRegistration → ℕ →
    RegistrationRecord :=
  Record.replace StoredRegistration.confirmationHeight

/-- `rollback_registration_to_before`. -/
def rollbackRegistrationToBefore : RegistrationRecord → ℕ → RegistrationRecord :=
  Record.rollbackToBefore StoredRegistration.confirmationHeight

/-! ## The feed of a registry -/

/-- `StoredRegistrationEvent`. -/
structure StoredRegistrationEvent where
  handle : String
  actionKind : RegistrationActionKind
  confirmationHeight : ℕ
  deriving DecidableEq

/-- `RegistryRegistrationStats`, the events oldest first. -/
structure RegistryRegistrationStats where
  totalRegistered : ℕ
  events : List StoredRegistrationEvent
  deriving DecidableEq

/-- `RegistryRegistrationStats::default()`. -/
def RegistryRegistrationStats.default : RegistryRegistrationStats := ⟨0, []⟩

/-- `RECENT_REGISTRATION_EVENTS_MAX`. -/
def recentRegistrationEventsMax : ℕ := 50

/-- `push_registration_event`: above the maximum the oldest event goes. -/
def pushRegistrationEvent (stats : RegistryRegistrationStats) (ev : StoredRegistrationEvent) :
    RegistryRegistrationStats :=
  let events := stats.events ++ [ev]
  { stats with
    events := if recentRegistrationEventsMax < events.length then events.tail else events }

/-- An event that a rollback takes back. -/
def orphanEvent (total : ℕ) (ev : StoredRegistrationEvent) : ℕ :=
  if ev.actionKind = .register then total - 1 else total

/-- `rollback_stats_to_before`: the newest events go as long as they are orphaned. -/
def rollbackStatsToBefore (stats : RegistryRegistrationStats) (fromHeight : ℕ) :
    RegistryRegistrationStats :=
  let orphaned := stats.events.rtakeWhile fun ev => decide (fromHeight ≤ ev.confirmationHeight)
  { totalRegistered := orphaned.reverse.foldl orphanEvent stats.totalRegistered
    events := stats.events.rdropWhile fun ev => decide (fromHeight ≤ ev.confirmationHeight) }

/-! ## The stores -/

/-- The stores of registrations, by handle and by registry.  A registry without
statistics has the default ones, as `get_stats` reads them. -/
structure RegistrationStore where
  records : RecordStore StoredRegistration
  stats : Bytes → RegistryRegistrationStats

/-- Stores without entries. -/
def RegistrationStore.empty : RegistrationStore := ⟨.empty, fun _ => .default⟩

/-- The registration that a log reports, if any. -/
def storedRegistration (registryLauncherId : Bytes) (height : ℕ) :
    ActionLog → Option StoredRegistration
  | .register e => some
      { registryLauncherId
        handle := e.precommitValue.handle
        handleHash := e.createdHandleSlot.handleHash
        registrationSecret := e.precommitValue.secret
        actionKind := .register
        protocolFee := e.totalPrice
        confirmationHeight := height }
  | .expire e => some
      { registryLauncherId
        handle := e.precommitValue.handle
        handleHash := e.createdSlot.handleHash
        registrationSecret := e.precommitValue.secret
        actionKind := .expire
        protocolFee := e.totalPrice
        confirmationHeight := height }
  -- extension and other lifecycle actions never replace the registration fact
  | _ => none

/-- Count a registration, up to the largest `u64`. -/
def countRegistration (stats : RegistryRegistrationStats) (stored : StoredRegistration) :
    RegistryRegistrationStats :=
  if stored.actionKind = .register then
    { stats with totalRegistered := min (stats.totalRegistered + 1) (2 ^ 64 - 1) }
  else stats

/-- One round of `project_registrations_from_logs`. -/
def projectRegistration (registryLauncherId : Bytes) (height : ℕ) (store : RegistrationStore)
    (stored : StoredRegistration) : RegistrationStore where
  records := store.records.replace StoredRegistration.confirmationHeight
    (registryLauncherId, stored.handleHash) stored height
  stats := Function.update store.stats registryLauncherId (countRegistration
    (pushRegistrationEvent (store.stats registryLauncherId)
      ⟨stored.handle, stored.actionKind, height⟩) stored)

/-- `project_registrations_from_logs`. -/
def projectRegistrationsFromLogs (store : RegistrationStore) (registryLauncherId : Bytes)
    (height : ℕ) (logs : List ActionLog) : RegistrationStore :=
  (logs.filterMap (storedRegistration registryLauncherId height)).foldl
    (projectRegistration registryLauncherId height) store

/-- The facts that a projection stores. -/
def registrationOps (registryLauncherId : Bytes) (height : ℕ) (logs : List ActionLog) :
    List (StoreOp StoredRegistration) :=
  (logs.filterMap (storedRegistration registryLauncherId height)).map fun stored =>
    .replace (registryLauncherId, stored.handleHash) stored

theorem storedRegistration_height {registryLauncherId : Bytes} {height : ℕ} {log : ActionLog}
    {stored : StoredRegistration}
    (h : storedRegistration registryLauncherId height log = some stored) :
    stored.confirmationHeight = height := by
  cases log with
  | register e | expire e =>
      unfold storedRegistration at h
      rw [← Option.some.inj h]
  | _ => cases h

theorem records_projectRegistrationsFromLogs (store : RegistrationStore)
    (registryLauncherId : Bytes) (height : ℕ) (logs : List ActionLog) :
    (projectRegistrationsFromLogs store registryLauncherId height logs).records
      = store.records.run StoredRegistration.confirmationHeight
          (registrationOps registryLauncherId height logs) := by
  have hheights : ∀ stored ∈ logs.filterMap (storedRegistration registryLauncherId height),
      stored.confirmationHeight = height := by
    intro stored hstored
    obtain ⟨log, _, hlog⟩ := List.mem_filterMap.1 hstored
    exact storedRegistration_height hlog
  unfold projectRegistrationsFromLogs registrationOps
  generalize logs.filterMap (storedRegistration registryLauncherId height) = facts at hheights ⊢
  induction facts generalizing store with
  | nil => rfl
  | cons stored facts ih =>
      show (List.foldl _ (projectRegistration registryLauncherId height store stored) facts).records
        = RecordStore.run _ (store.records.replace _ (registryLauncherId, stored.handleHash) stored
            stored.confirmationHeight) _
      rw [ih _ fun s hs => hheights s (List.mem_cons_of_mem _ hs),
        hheights stored List.mem_cons_self]
      rfl

/-- The part of `rollback` that is about registrations. -/
def rollbackRegistrations (store : RegistrationStore) (fromHeight : ℕ) : RegistrationStore where
  records := store.records.rollback StoredRegistration.confirmationHeight fromHeight
  stats registry := rollbackStatsToBefore (store.stats registry) fromHeight

end SlotMachine.Listener
