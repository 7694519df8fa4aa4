import SlotMachine.Listener.Listing

/-!
# What the indexer writes to the stores

The indexer reads a record, gives it a new state and stores it.  After a reorganisation it
goes through the keys, and stores or removes what is left of each record.

* `RecordStore.writes` — what is stored and removed, the first change first.
* `Stored`, `stored_writes` — **every record that is written has a current state**, one that
  was projected under its key.
* `Written` — a run of changes of both stores that are those of the indexer.
* `IndexerCall` — the projections of a registry's logs, or a rollback.
* `written_lawful`, `projected_calls` — **the indexer makes lawful changes only**.
* `Written.run_eq` — **the stores end as the projections and rollbacks say**.
-/

namespace SlotMachine.Listener

open Retention

/-! ## What is written -/

/-- What is put at a key; nothing if the key is removed. -/
abbrev Write (σ : Type) := (Bytes × Bytes) × Option (Record σ)

namespace RecordStore

variable {σ : Type} (height : σ → ℕ) (allKeys : RecordStore σ → List (Bytes × Bytes))

/-- The keys that an operation is about: a rollback goes through those of the store, and
leaves out the ones without a record. -/
def writtenKeys (store : RecordStore σ) : StoreOp σ → List (Bytes × Bytes)
  | .replace key _ => [key]
  | .rollback _ => (allKeys store).filter fun key => (store key).isSome

/-- What the operations write, the first one first. -/
def writes (store : RecordStore σ) : List (StoreOp σ) → List (Write σ)
  | [] => []
  | op :: ops =>
      ((store.writtenKeys allKeys op).map fun key => (key, store.apply height op key))
        ++ writes (store.apply height op) ops

/-- Put a record at a key, or remove the key. -/
def put (store : RecordStore σ) (write : Write σ) : RecordStore σ :=
  Function.update store write.1 write.2

end RecordStore

/-! ## The records -/

section

variable {σ : Type} {height : σ → ℕ} {allKeys : RecordStore σ → List (Bytes × Bytes)}
variable {P : Bytes × Bytes → σ → Prop} {store : RecordStore σ}

/-- The record of a key has a current state, and what it has is as it should be. -/
structure Stored (P : Bytes × Bytes → σ → Prop) (key : Bytes × Bytes) (record : Record σ) :
    Prop where
  key_eq : (record.registryLauncherId, record.handleHash) = key
  current_isSome : record.current.isSome = true
  versions : ∀ s ∈ record.versions, P key s

theorem stored_empty (key : Bytes × Bytes) :
    ∀ record ∈ (RecordStore.empty : RecordStore σ) key, Stored P key record :=
  fun _ hrecord => absurd hrecord (Option.not_mem_none _)

/-- A record that is restored and kept has a current state: the last one that is left. -/
theorem stored_restore {key : Bytes × Bytes} {o : Option (Record σ)}
    (h : ∀ record ∈ o, Stored P key record) (fromHeight : ℕ) :
    ∀ record ∈ RecordStore.restore height o fromHeight, Stored P key record := by
  intro record hrecord
  cases o with
  | none => exact absurd hrecord (Option.not_mem_none _)
  | some before =>
      have hbefore := h before rfl
      unfold RecordStore.restore at hrecord
      dsimp only at hrecord
      split at hrecord
      · cases hrecord
      · next hleft =>
          obtain rfl := Option.some.inj hrecord
          refine ⟨hbefore.key_eq, ?_, fun s hs => ?_⟩
          · rw [Option.isSome_iff_ne_none]
            intro hnone
            refine hleft (Bool.and_eq_true_iff.2 ⟨Option.isNone_iff_eq_none.2 hnone, ?_⟩)
            -- without a current state nothing was left to restore
            have hlast := (Option.or_eq_none_iff.1 hnone).2
            exact List.isEmpty_iff.2 (List.getLast?_eq_none_iff.1 hlast)
          · exact hbefore.versions s (Retained.mem_of_mem_versions_rollback hs)

/-- **One operation.** -/
theorem stored_apply (h : ∀ key, ∀ record ∈ store key, Stored P key record) {op : StoreOp σ}
    (hop : ∀ key s, op = .replace key s → P key s) (key : Bytes × Bytes) :
    ∀ record ∈ store.apply height op key, Stored P key record := by
  cases op with
  | rollback fromHeight => exact stored_restore (h key) fromHeight
  | replace key' newState =>
      intro record hrecord
      rcases of_update_eq_some hrecord with ⟨rfl, hsome⟩ | hrecord
      · -- the record before it, or a new one
        obtain ⟨before, hbefore⟩ : ∃ r, r = (store key).getD (.empty key.1 key.2) := ⟨_, rfl⟩
        have hkey : (before.registryLauncherId, before.handleHash) = key ∧
            ∀ s ∈ before.versions, P key s := by
          rw [hbefore]
          cases hold : store key with
          | none => exact ⟨rfl, nofun⟩
          | some old => exact ⟨(h key old hold).key_eq, (h key old hold).versions⟩
        rw [← Option.some.inj hsome, ← hbefore]
        refine ⟨hkey.1, rfl, fun s hs => ?_⟩
        rcases Retained.mem_of_mem_versions_push hs with hs | rfl
        · exact hkey.2 s hs
        · exact hop key s rfl
      · exact h key record hrecord

/-- **Every record that is written has a current state**, and states as they should be. -/
theorem stored_writes {ops : List (StoreOp σ)} (hops : ∀ key s, .replace key s ∈ ops → P key s)
    (h : ∀ key, ∀ record ∈ store key, Stored P key record) :
    ∀ w ∈ store.writes height allKeys ops, ∀ record ∈ w.2, Stored P w.1 record := by
  induction ops generalizing store with
  | nil => exact nofun
  | cons op ops ih =>
      have hstep : ∀ key, ∀ record ∈ store.apply height op key, Stored P key record :=
        stored_apply h fun key s hop => hops key s (hop ▸ List.mem_cons_self ..)
      intro w hw
      rcases List.mem_append.1 hw with hw | hw
      · obtain ⟨key, -, rfl⟩ := List.mem_map.1 hw
        exact hstep key
      · exact ih (fun key s hop => hops key s (List.mem_cons_of_mem _ hop)) hstep w hw

/-! ## What is written is what is stored -/

/-- Values of one map are put into another one. -/
theorem foldl_put (store' : RecordStore σ) (keys : List (Bytes × Bytes)) (key : Bytes × Bytes) :
    ((keys.map fun k => (k, store' k)).foldl RecordStore.put store) key
      = if key ∈ keys then store' key else store key := by
  induction keys generalizing store with
  | nil => rfl
  | cons k keys ih =>
      rw [List.map_cons, List.foldl_cons, ih]
      by_cases hmem : key ∈ keys
      · rw [if_pos hmem, if_pos (List.mem_cons_of_mem _ hmem)]
      · rw [if_neg hmem]
        unfold RecordStore.put
        rw [Function.update_apply]
        by_cases hkey : key = k
        · rw [if_pos hkey, if_pos (hkey ▸ List.mem_cons_self ..), hkey]
        · rw [if_neg hkey, if_neg]
          exact fun h => (List.mem_cons.1 h).elim hkey hmem

/-- An operation changes the records it writes, and no others. -/
theorem apply_eq_of_notMem (hkeys : ∀ store key, (store key).isSome = true → key ∈ allKeys store)
    {op : StoreOp σ} {key : Bytes × Bytes} (h : key ∉ store.writtenKeys allKeys op) :
    store.apply height op key = store key := by
  cases op with
  | replace key' newState =>
      exact RecordStore.replace_of_ne store (fun heq => h (List.mem_singleton.2 heq)) _ _
  | rollback fromHeight =>
      cases hrecord : store key with
      | none =>
          show RecordStore.restore height (store key) fromHeight = none
          rw [hrecord]
          rfl
      | some record =>
          have hsome : (store key).isSome = true := by rw [hrecord]; rfl
          exact absurd (List.mem_filter.2 ⟨hkeys store key hsome, hsome⟩) h

/-- **The store after what is written** is the store after the operations. -/
theorem foldl_put_writes
    (hkeys : ∀ store key, (store key).isSome = true → key ∈ allKeys store)
    (ops : List (StoreOp σ)) :
    (store.writes height allKeys ops).foldl RecordStore.put store = store.run height ops := by
  induction ops generalizing store with
  | nil => rfl
  | cons op ops ih =>
      have hstep : ((store.writtenKeys allKeys op).map fun key =>
          (key, store.apply height op key)).foldl RecordStore.put store
            = store.apply height op := by
        funext key
        rw [foldl_put]
        by_cases hmem : key ∈ store.writtenKeys allKeys op
        · exact if_pos hmem
        · rw [if_neg hmem, apply_eq_of_notMem hkeys hmem]
      rw [RecordStore.writes, List.foldl_append, hstep, ih]
      rfl

end

/-! ## Both stores -/

/-- What an operation writes to the slots. -/
def Op.slotWrite : Op → Option (Write StoredHandleSlot)
  | .upsert record => some ((record.registryLauncherId, record.handleHash), some record)
  | .remove key => some (key, none)
  | _ => none

/-- What an operation writes to the registrations. -/
def Op.registrationWrite : Op → Option (Write StoredRegistration)
  | .upsertRegistration record => some ((record.registryLauncherId, record.handleHash), some record)
  | .removeRegistration key => some (key, none)
  | _ => none

section

variable {Json : Type} {serde : Serde Json} {stores : Stores Json}

/-- The slots are what is written to them … -/
theorem memory_run (ops : List Op) : (stores.run serde ops).memory.inner
    = (ops.filterMap Op.slotWrite).foldl RecordStore.put stores.memory.inner := by
  induction ops generalizing stores with
  | nil => rfl
  | cons op ops ih =>
      show ((stores.step serde op).run serde ops).memory.inner = _
      rw [ih]
      cases op <;> rfl

/-- … and so are the registrations. -/
theorem registrations_run (ops : List Op) : (stores.run serde ops).registrations
    = (ops.filterMap Op.registrationWrite).foldl RecordStore.put stores.registrations := by
  induction ops generalizing stores with
  | nil => rfl
  | cons op ops ih =>
      show ((stores.step serde op).run serde ops).registrations = _
      rw [ih]
      cases op <;> rfl

end

/-! ## The calls of the indexer -/

/-- A call of the indexer: the projections of the logs of a registry in a block, or a
rollback. -/
inductive IndexerCall where
  | transition (registryLauncherId : Bytes) (height : ℕ) (logs : List ActionLog)
      (parentFor : Bytes → Option SlotParentLineage)
  | rollback (fromHeight : ℕ)

namespace IndexerCall

/-- The logs of a call. -/
def logs : IndexerCall → List ActionLog
  | .transition _ _ logs _ => logs
  | .rollback _ => []

/-- What a call makes of the slots, and of the registrations. -/
def runSlots (valueHash : HandleSlotValue → Bytes) (store : HandleSlotStore) :
    IndexerCall → HandleSlotStore
  | .transition registryLauncherId height logs parentFor =>
      projectHandleSlotsFromLogs valueHash store registryLauncherId height logs parentFor
  | .rollback fromHeight => rollbackHandleSlots store fromHeight

def runRegistrations (store : RegistrationStore) : IndexerCall → RegistrationStore
  | .transition registryLauncherId height logs _ =>
      projectRegistrationsFromLogs store registryLauncherId height logs
  | .rollback fromHeight => rollbackRegistrations store fromHeight

/-- What a call does to the slots. -/
def slotOps (valueHash : HandleSlotValue → Bytes) : IndexerCall → List (StoreOp StoredHandleSlot)
  | .transition registryLauncherId height logs parentFor =>
      handleSlotOps valueHash registryLauncherId height logs parentFor
  | .rollback fromHeight => [.rollback fromHeight]

/-- What a call does to the registrations. -/
def regOps : IndexerCall → List (StoreOp StoredRegistration)
  | .transition registryLauncherId height logs _ =>
      registrationOps registryLauncherId height logs
  | .rollback fromHeight => [.rollback fromHeight]

/-- **The calls are runs of operations**, on the slots … -/
theorem foldl_runSlots (valueHash : HandleSlotValue → Bytes) (store : HandleSlotStore)
    (calls : List IndexerCall) : calls.foldl (runSlots valueHash) store
      = store.run StoredHandleSlot.confirmationHeight (calls.flatMap (slotOps valueHash)) := by
  induction calls generalizing store with
  | nil => rfl
  | cons call calls ih =>
      have hcall : runSlots valueHash store call
          = store.run StoredHandleSlot.confirmationHeight (call.slotOps valueHash) := by
        cases call with
        | transition registryLauncherId height logs parentFor =>
            exact projectHandleSlotsFromLogs_eq_run ..
        | rollback fromHeight => rfl
      rw [List.foldl_cons, ih, hcall, List.flatMap_cons]
      exact (List.foldl_append ..).symm

/-- … and on the registrations. -/
theorem foldl_runRegistrations (store : RegistrationStore) (calls : List IndexerCall) :
    (calls.foldl runRegistrations store).records = store.records.run
      StoredRegistration.confirmationHeight (calls.flatMap regOps) := by
  induction calls generalizing store with
  | nil => rfl
  | cons call calls ih =>
      have hcall : (runRegistrations store call).records
          = store.records.run StoredRegistration.confirmationHeight call.regOps := by
        cases call with
        | transition registryLauncherId height logs parentFor =>
            exact records_projectRegistrationsFromLogs ..
        | rollback fromHeight => rfl
      rw [List.foldl_cons, ih, hcall, List.flatMap_cons]
      exact (List.foldl_append ..).symm

end IndexerCall

/-- A log has the hash of the handle it names, and expirations without a sign bit. -/
structure ActionLog.Storable (log : ActionLog) : Prop where
  namesHash : log.NamesHash nameHash
  expiration_lt : ∀ value ∈ log.createdHandleSlots, value.expiration < 2 ^ 63

/-- **The changes of both stores are those of the calls**, whatever their order between the
stores. -/
structure Written (valueHash : HandleSlotValue → Bytes)
    (slotKeys : HandleSlotStore → List (Bytes × Bytes))
    (regKeys : RecordStore StoredRegistration → List (Bytes × Bytes)) (calls : List IndexerCall)
    (ops : List Op) : Prop where
  slots : ops.filterMap Op.slotWrite = RecordStore.empty.writes StoredHandleSlot.confirmationHeight
    slotKeys (calls.flatMap (IndexerCall.slotOps valueHash))
  registrations : ops.filterMap Op.registrationWrite = RecordStore.empty.writes
    StoredRegistration.confirmationHeight regKeys (calls.flatMap IndexerCall.regOps)

section

variable {valueHash : HandleSlotValue → Bytes} {calls : List IndexerCall} {ops : List Op}
variable {slotKeys : HandleSlotStore → List (Bytes × Bytes)}
variable {regKeys : RecordStore StoredRegistration → List (Bytes × Bytes)}

/-- A slot that is projected is stored under its own hash. -/
theorem slot_projected (hlogs : ∀ call ∈ calls, ∀ log ∈ call.logs, log.Storable)
    (key : Bytes × Bytes) (slot : StoredHandleSlot)
    (h : .replace key slot ∈ calls.flatMap (IndexerCall.slotOps valueHash)) :
    slot.handleHash = key.2 ∧ slot.expiration < 2 ^ 63 := by
  obtain ⟨call, hcall, hop⟩ := List.mem_flatMap.1 h
  cases call with
  | transition registryLauncherId height logs parentFor =>
      exact mem_handleSlotOps (fun log hlog => (hlogs _ hcall log hlog).expiration_lt) hop
  | rollback fromHeight => cases List.mem_singleton.1 hop

/-- A registration that is projected is stored under the hash of its handle. -/
theorem registration_projected (hlogs : ∀ call ∈ calls, ∀ log ∈ call.logs, log.Storable)
    (key : Bytes × Bytes) (reg : StoredRegistration)
    (h : .replace key reg ∈ calls.flatMap IndexerCall.regOps) : nameHash reg.handle = key.2 := by
  obtain ⟨call, hcall, hop⟩ := List.mem_flatMap.1 h
  cases call with
  | transition registryLauncherId height logs parentFor =>
      exact mem_registrationOps (fun log hlog => (hlogs _ hcall log hlog).namesHash) hop
  | rollback fromHeight => cases List.mem_singleton.1 hop

/-- **The indexer makes lawful changes only.** -/
theorem written_lawful (hlogs : ∀ call ∈ calls, ∀ log ∈ call.logs, log.Storable)
    (h : Written valueHash slotKeys regKeys calls ops) : ∀ op ∈ ops, op.Lawful := by
  intro op hop
  cases op with
  | upsert record =>
      have hwrite : ((record.registryLauncherId, record.handleHash), some record)
          ∈ ops.filterMap Op.slotWrite := List.mem_filterMap.2 ⟨_, hop, rfl⟩
      rw [h.slots] at hwrite
      have hstored := stored_writes (slot_projected hlogs) stored_empty _ hwrite record rfl
      obtain ⟨slot, hslot⟩ := Option.isSome_iff_exists.1 hstored.current_isSome
      obtain ⟨hhash, hlt⟩ := hstored.versions slot (List.mem_append_right _ (by simp [hslot]))
      exact ⟨slot, hslot, hlt, hhash⟩
  | upsertRegistration record =>
      have hwrite : ((record.registryLauncherId, record.handleHash), some record)
          ∈ ops.filterMap Op.registrationWrite := List.mem_filterMap.2 ⟨_, hop, rfl⟩
      rw [h.registrations] at hwrite
      have hstored := stored_writes (registration_projected hlogs) stored_empty _ hwrite record rfl
      intro reg hreg
      exact (hstored.versions reg (List.mem_append_right _ (Option.mem_toList.2 hreg))).symm
  | remove key => trivial
  | removeRegistration key => trivial

/-- **What the requests rely on** holds of stores that only the indexer writes. -/
theorem projected_calls {state : ListenerApiState}
    (hlogs : ∀ call ∈ calls, ∀ log ∈ call.logs, log.Storable)
    (hinner : state.handleSlots.inner = calls.foldl (IndexerCall.runSlots valueHash) .empty)
    (hregistrations : state.registrations
      = (calls.foldl IndexerCall.runRegistrations .empty).records) :
    state.Projected := by
  rw [IndexerCall.foldl_runSlots] at hinner
  rw [IndexerCall.foldl_runRegistrations] at hregistrations
  refine projected_run (fun key slot hslot => ?_) (registration_projected hlogs) hinner
    hregistrations
  obtain ⟨hhash, hlt⟩ := slot_projected hlogs key slot hslot
  refine ⟨hhash, ?_⟩
  unfold u64Max
  omega

/-- **The stores end as the projections and rollbacks say**, if a rollback goes through all
keys. -/
theorem Written.run_eq {Json : Type} (serde : Serde Json)
    (h : Written valueHash slotKeys regKeys calls ops)
    (hslots : ∀ store key, (store key).isSome = true → key ∈ slotKeys store)
    (hregs : ∀ store key, (store key).isSome = true → key ∈ regKeys store) :
    ((Stores.new Json).run serde ops).memory.inner
        = calls.foldl (IndexerCall.runSlots valueHash) .empty ∧
      ((Stores.new Json).run serde ops).registrations
        = (calls.foldl IndexerCall.runRegistrations .empty).records := by
  constructor
  · rw [memory_run, h.slots, IndexerCall.foldl_runSlots]
    exact foldl_put_writes hslots _
  · rw [registrations_run, h.registrations, IndexerCall.foldl_runRegistrations]
    exact foldl_put_writes hregs _

end

end SlotMachine.Listener
