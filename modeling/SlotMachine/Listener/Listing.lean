import SlotMachine.Clvm.Curry
import SlotMachine.Ledger.Table
import SlotMachine.Listener.Expiring

/-!
# Two stores of handle slots

The handle slots are stored in memory or in a database.  Both list the named handles of a
window of expirations, one in Rust and the other by a query with numbers of 64 bits that have
a sign.

* `DbHandleSlotStore.listNamedInExpirationWindow`, `listNamedHandleSlotsInExpirationWindow` — the
  listing of the database, and its query (`listener/handle_store.rs`, `database.rs`).
* `Op`, `Stores.run` — what is done to both stores.
* `Stores.Mirrored`, `mirrored_run` — **the tables have the records of the memory store**.
* `memory_listed`, `database_listed` — **the first handles of a sorted list**, each.
* `Agree` — the stores list the same.
* `listings_agree_iff` — **when they do**: the bounds are below `2 ^ 63`, or no handle is
  listed anyway.
-/

namespace SlotMachine.Listener

open Paging

/-! ## The database -/

/-- What `serde_json` writes and reads, and what SQLite extracts. -/
structure Serde (Json : Type) where
  slotToString : HandleSlotRecord → Option Json
  slotFromStr : Json → Option HandleSlotRecord
  registrationToString : RegistrationRecord → Option Json
  /-- `json_extract(record_json, '$.current.handle')`. -/
  extractHandle : Json → Option String

/-- What is written is read back. -/
structure Serde.Lawful {Json : Type} (serde : Serde Json) : Prop where
  slot : ∀ record, ∃ json, serde.slotToString record = some json ∧
    serde.slotFromStr json = some record
  registration : ∀ record, ∃ json, serde.registrationToString record = some json ∧
    serde.extractHandle json = record.current.map StoredRegistration.handle

/-- A row of `handle_slot_records`. -/
structure HandleSlotRow (Json : Type) where
  registryLauncherId : Bytes
  handleHash : Bytes
  recordJson : Json
  expiration : ℤ
  deriving DecidableEq

/-- A row of `registration_records`. -/
structure RegistrationRow (Json : Type) where
  registryLauncherId : Bytes
  handleHash : Bytes
  recordJson : Json
  deriving DecidableEq

/-- The primary key of a row. -/
def HandleSlotRow.key {Json : Type} (row : HandleSlotRow Json) : Bytes × Bytes :=
  (row.registryLauncherId, row.handleHash)

/-- The primary key of a row. -/
def RegistrationRow.key {Json : Type} (row : RegistrationRow Json) : Bytes × Bytes :=
  (row.registryLauncherId, row.handleHash)

/-- `Db`, as far as the listing reads it. -/
structure ListingDb (Json : Type) where
  handleSlotRecords : List (HandleSlotRow Json)
  registrationRecords : List (RegistrationRow Json)

/-- `as i64`, of a `u64`. -/
def asI64 (v : ℕ) : ℤ := if v < 2 ^ 63 then v else v - 2 ^ 64

/-- `LIMIT`: a negative one is none. -/
def sqlLimit {α : Type} (limit : ℤ) (rows : List α) : List α :=
  if limit < 0 then rows else rows.take limit.toNat

namespace ListingDb

variable {Json : Type} (serde : Serde Json)

/-- `upsert_handle_slot_record_json`. -/
def upsertHandleSlotRecordJson (db : ListingDb Json) (registryLauncherId handleHash : Bytes)
    (recordJson : Json) (expiration : ℕ) : ListingDb Json :=
  let excluded : HandleSlotRow Json :=
    ⟨registryLauncherId, handleHash, recordJson, asI64 expiration⟩
  { db with
    handleSlotRecords := Table.upsert HandleSlotRow.key (fun row =>
      { row with recordJson := excluded.recordJson, expiration := excluded.expiration })
      excluded db.handleSlotRecords }

/-- `delete_handle_slot_record`. -/
def deleteHandleSlotRecord (db : ListingDb Json) (key : Bytes × Bytes) : ListingDb Json :=
  { db with handleSlotRecords := db.handleSlotRecords.filter fun row => decide (row.key ≠ key) }

/-- `upsert_registration_record_json`. -/
def upsertRegistrationRecordJson (db : ListingDb Json) (registryLauncherId handleHash : Bytes)
    (recordJson : Json) : ListingDb Json :=
  let excluded : RegistrationRow Json := ⟨registryLauncherId, handleHash, recordJson⟩
  { db with
    registrationRecords := Table.upsert RegistrationRow.key (fun row =>
      { row with recordJson := excluded.recordJson }) excluded db.registrationRecords }

/-- `delete_registration_record`. -/
def deleteRegistrationRecord (db : ListingDb Json) (key : Bytes × Bytes) : ListingDb Json :=
  { db with
    registrationRecords := db.registrationRecords.filter fun row => decide (row.key ≠ key) }

/-- The condition of the query on a joined row, whose handle is not null. -/
def queried (registry : Bytes) (minExpiration maxExpiration afterExpiration : ℤ)
    (afterHandle : String) (row : HandleSlotRow Json) (handle : String) : Prop :=
  row.registryLauncherId = registry ∧
    minExpiration ≤ row.expiration ∧ row.expiration ≤ maxExpiration ∧ handle ≠ "" ∧
    (afterExpiration < row.expiration ∨ (row.expiration = afterExpiration ∧ afterHandle < handle))

instance (registry : Bytes) (minExpiration maxExpiration afterExpiration : ℤ)
    (afterHandle : String) (row : HandleSlotRow Json) (handle : String) :
    Decidable (queried registry minExpiration maxExpiration afterExpiration afterHandle row
      handle) :=
  inferInstanceAs (Decidable (_ ∧ _))

/-- The rows that the query joins and selects. -/
def selected (db : ListingDb Json) (registry : Bytes) (minExpiration maxExpiration
    afterExpiration : ℤ) (afterHandle : String) : List (HandleSlotRow Json × String) :=
  db.handleSlotRecords.flatMap fun h =>
    (db.registrationRecords.filter fun r => decide (r.key = h.key)).filterMap fun r =>
      (serde.extractHandle r.recordJson).bind fun handle =>
        if queried registry minExpiration maxExpiration afterExpiration afterHandle h handle then
          some (h, handle)
        else none

/-- The order of the query. -/
def queryKey (row : HandleSlotRow Json × String) : ℤ ×ₗ String :=
  toLex (row.1.expiration, row.2)

/-- `list_named_handle_slots_in_expiration_window`. -/
def listNamedHandleSlotsInExpirationWindow (db : ListingDb Json) (registry : Bytes)
    (minExpiration maxExpiration : ℕ) (after : Option (ℕ × String)) (limit : ℕ) :
    List (Json × String) :=
  let (afterExpiration, afterHandle) := after.getD (0, "")
  let rows := db.selected serde registry (asI64 minExpiration) (asI64 maxExpiration)
    (asI64 afterExpiration) afterHandle
  (sqlLimit (asI64 limit) (listing queryKey rows)).map fun row => (row.1.recordJson, row.2)

end ListingDb

/-- The row of a record that was read. -/
def readRow {Json : Type} (serde : Serde Json) (row : Json × String) :
    Option (String × StoredHandleSlot) :=
  if row.2.isEmpty then none
  else (serde.slotFromStr row.1).bind fun record => record.current.map fun slot => (row.2, slot)

/-- `DbHandleSlotStore::upsert`. -/
def DbHandleSlotStore.upsert {Json : Type} (serde : Serde Json) (db : ListingDb Json)
    (record : HandleSlotRecord) : ListingDb Json :=
  match serde.slotToString record with
  -- a record that cannot be written is printed
  | none => db
  | some json =>
      let expiration := (record.current.map StoredHandleSlot.expiration).getD 0
      db.upsertHandleSlotRecordJson record.registryLauncherId record.handleHash json expiration

/-- `DbHandleSlotStore::list_named_in_expiration_window`. -/
def DbHandleSlotStore.listNamedInExpirationWindow {Json : Type} (serde : Serde Json)
    (db : ListingDb Json) (registry : Bytes) (minExpiration maxExpiration : ℕ)
    (after : Option (ℕ × String)) (limit : ℕ) : List (String × StoredHandleSlot) :=
  (db.listNamedHandleSlotsInExpirationWindow serde registry minExpiration maxExpiration after
    limit).filterMap (readRow serde)

/-- `DbRegistrationStore::upsert`. -/
def DbRegistrationStore.upsert {Json : Type} (serde : Serde Json) (db : ListingDb Json)
    (record : RegistrationRecord) : ListingDb Json :=
  match serde.registrationToString record with
  | none => db
  | some json => db.upsertRegistrationRecordJson record.registryLauncherId record.handleHash json

/-! ## Both stores -/

/-- What is at a key of a map after a change: what was put there, or what was there before. -/
theorem of_update_eq_some {κ α : Type} [DecidableEq κ] {m : κ → Option α} {k k' : κ} {o : Option α}
    {x : α} (h : Function.update m k o k' = some x) : (k' = k ∧ o = some x) ∨ m k' = some x := by
  rw [Function.update_apply] at h
  split at h
  · next hkey => exact Or.inl ⟨hkey, h⟩
  · exact Or.inr h

namespace MemoryHandleSlotStore

theorem nodup_remove (store : MemoryHandleSlotStore) (key : Bytes × Bytes) :
    (store.keys.erase key).Nodup :=
  store.nodup_keys.erase key

theorem mem_remove (store : MemoryHandleSlotStore) (key key' : Bytes × Bytes) :
    key' ∈ store.keys.erase key ↔ (Function.update store.inner key none key').isSome = true := by
  rw [store.nodup_keys.mem_erase_iff, Function.update_apply, store.mem_keys]
  by_cases hkey : key' = key <;> simp [hkey]

theorem keyed_remove (store : MemoryHandleSlotStore) (key key' : Bytes × Bytes)
    (record : HandleSlotRecord) (h : Function.update store.inner key none key' = some record) :
    (record.registryLauncherId, record.handleHash) = key' := by
  rcases of_update_eq_some h with ⟨-, hnone⟩ | h
  · cases hnone
  · exact store.keyed key' record h

/-- `remove`. -/
def remove (store : MemoryHandleSlotStore) (key : Bytes × Bytes) : MemoryHandleSlotStore where
  inner := Function.update store.inner key none
  keys := store.keys.erase key
  nodup_keys := store.nodup_remove key
  mem_keys := store.mem_remove key
  keyed := store.keyed_remove key

end MemoryHandleSlotStore

/-- The stores in memory, and the database. -/
structure Stores (Json : Type) where
  memory : MemoryHandleSlotStore
  registrations : RecordStore StoredRegistration
  db : ListingDb Json

/-- Stores without entries. -/
def Stores.new (Json : Type) : Stores Json := ⟨.new, .empty, [], []⟩

/-- What is done to both stores. -/
inductive Op where
  | upsert (record : HandleSlotRecord)
  | remove (key : Bytes × Bytes)
  | upsertRegistration (record : RegistrationRecord)
  | removeRegistration (key : Bytes × Bytes)

section

variable {Json : Type} (serde : Serde Json)

/-- One change of both stores. -/
def Stores.step (stores : Stores Json) : Op → Stores Json
  | .upsert record =>
      { stores with
        memory := stores.memory.upsert record
        db := DbHandleSlotStore.upsert serde stores.db record }
  | .remove key =>
      { stores with
        memory := stores.memory.remove key
        db := stores.db.deleteHandleSlotRecord key }
  | .upsertRegistration record =>
      { stores with
        registrations := Function.update stores.registrations
          (record.registryLauncherId, record.handleHash) (some record)
        db := DbRegistrationStore.upsert serde stores.db record }
  | .removeRegistration key =>
      { stores with
        registrations := Function.update stores.registrations key none
        db := stores.db.deleteRegistrationRecord key }

/-- A run of changes. -/
def Stores.run (stores : Stores Json) (ops : List Op) : Stores Json :=
  ops.foldl (Stores.step serde) stores

/-- The hash of a handle. -/
def nameHash (handle : String) : Bytes := (Clvm.atom (utf8Bytes handle)).treeHash256

/-- A slot record has a current slot, of its own hash and with an expiration below `2 ^ 63`; a
registration is stored under the hash of its handle. -/
def Op.Lawful : Op → Prop
  | .upsert record => ∃ slot, record.current = some slot ∧ slot.expiration < 2 ^ 63 ∧
      slot.handleHash = record.handleHash
  | .upsertRegistration record => ∀ reg ∈ record.current, record.handleHash = nameHash reg.handle
  | _ => True

/-- A request for the handles of a window, with numbers of 64 bits. -/
structure WindowQuery where
  registry : Bytes
  minExpiration : ℕ
  maxExpiration : ℕ
  after : Option (ℕ × String)
  limit : ℕ
  min_lt : minExpiration < 2 ^ 64
  max_lt : maxExpiration < 2 ^ 64
  after_lt : ∀ k ∈ after, k.1 < 2 ^ 64
  limit_lt : limit < 2 ^ 64

/-- **Both stores list the same**, whatever the order of the hash map and of the tables. -/
def Agree (stores : Stores Json) (query : WindowQuery) : Prop :=
  ∀ memory : MemoryHandleSlotStore, memory.inner = stores.memory.inner →
  ∀ db : ListingDb Json, db.handleSlotRecords.Perm stores.db.handleSlotRecords →
    db.registrationRecords.Perm stores.db.registrationRecords →
    listNamedInExpirationWindow memory query.registry query.minExpiration query.maxExpiration
        query.after query.limit stores.registrations
      = DbHandleSlotStore.listNamedInExpirationWindow serde db query.registry
          query.minExpiration query.maxExpiration query.after query.limit

end

/-! ## When they should -/

namespace WindowQuery

variable (query : WindowQuery)

/-- The bounds are the same with a sign. -/
def Representable : Prop :=
  query.minExpiration < 2 ^ 63 ∧ query.maxExpiration < 2 ^ 63 ∧ ∀ k ∈ query.after, k.1 < 2 ^ 63

/-- A row of the window, behind the cursor. -/
def Selects (row : String × StoredHandleSlot) : Prop :=
  (query.minExpiration ≤ row.2.expiration ∧ row.2.expiration ≤ query.maxExpiration) ∧
    ∀ k ∈ query.after.map toLex, k < rowKey row

/-- A row of the window, behind the cursor, if the bounds are read with a sign. -/
def SelectsSigned (row : String × StoredHandleSlot) : Prop :=
  asI64 query.minExpiration ≤ row.2.expiration ∧
    (row.2.expiration : ℤ) ≤ asI64 query.maxExpiration ∧
    ∀ k ∈ query.after, asI64 k.1 < row.2.expiration ∨
      ((row.2.expiration : ℤ) = asI64 k.1 ∧ k.2 < row.1)

end WindowQuery

/-- A named handle of a registry. -/
def Stores.Named {Json : Type} (stores : Stores Json) (registry : Bytes)
    (row : String × StoredHandleSlot) : Prop :=
  (∃ hash, stores.memory.inner.current (registry, hash) = some row.2) ∧
    ∃ reg, stores.registrations.current (registry, row.2.handleHash) = some reg ∧
      reg.handle = row.1 ∧ row.1 ≠ ""

/-! ## The tables -/

section

variable {Json : Type} (serde : Serde Json)

/-- The row that is written for a record. -/
def slotRow (record : HandleSlotRecord) : Option (HandleSlotRow Json) :=
  (serde.slotToString record).map fun json => ⟨record.registryLauncherId, record.handleHash, json,
    asI64 ((record.current.map StoredHandleSlot.expiration).getD 0)⟩

/-- The row that is written for a registration. -/
def registrationRow (record : RegistrationRecord) : Option (RegistrationRow Json) :=
  (serde.registrationToString record).map fun json =>
    ⟨record.registryLauncherId, record.handleHash, json⟩

/-- **The tables have the records of the stores in memory.** -/
structure Stores.Mirrored (stores : Stores Json) : Prop where
  slots : Table.Represents HandleSlotRow.key stores.db.handleSlotRecords
    fun key => (stores.memory.inner key).bind (slotRow serde)
  registrations : Table.Represents RegistrationRow.key stores.db.registrationRecords
    fun key => (stores.registrations key).bind (registrationRow serde)
  keyed : ∀ key record, stores.registrations key = some record →
    (record.registryLauncherId, record.handleHash) = key

/-- What is stored is as it was put there. -/
structure Stores.Sound (stores : Stores Json) : Prop where
  slot : ∀ key record, stores.memory.inner key = some record → ∃ slot,
    record.current = some slot ∧ slot.expiration < 2 ^ 63 ∧ slot.handleHash = key.2
  name : ∀ key record, stores.registrations key = some record → ∀ reg ∈ record.current,
    key.2 = nameHash reg.handle

variable {serde} {stores : Stores Json}

/-- A record that is put into a map is one row that is put into the map of rows. -/
theorem update_bind {κ α β : Type} [DecidableEq κ] (m : κ → Option α) (f : α → Option β) (k : κ)
    (o : Option α) : (fun k' => (Function.update m k o k').bind f)
      = Function.update (fun k' => (m k').bind f) k (o.bind f) := by
  funext k'
  rw [Function.update_apply, Function.update_apply]
  split <;> rfl

theorem mirrored_new : (Stores.new Json).Mirrored serde where
  slots := Table.represents_nil _
  registrations := Table.represents_nil _
  keyed := by simp [Stores.new, RecordStore.empty]

theorem sound_new : (Stores.new Json).Sound where
  slot := by simp [Stores.new, MemoryHandleSlotStore.new, RecordStore.empty]
  name := by simp [Stores.new, RecordStore.empty]

theorem upsert_mirrored (hserde : serde.Lawful) (h : stores.Mirrored serde)
    (record : HandleSlotRecord) : (stores.step serde (.upsert record)).Mirrored serde := by
  obtain ⟨json, hjson, -⟩ := hserde.slot record
  refine ⟨?_, ?_, h.keyed⟩
  · show Table.Represents _ (DbHandleSlotStore.upsert serde stores.db record).handleSlotRecords
      fun key => (Function.update stores.memory.inner (record.registryLauncherId, record.handleHash)
        (some record) key).bind (slotRow serde)
    have hrow : (some record).bind (slotRow serde)
        = some ⟨record.registryLauncherId, record.handleHash, json,
            asI64 ((record.current.map StoredHandleSlot.expiration).getD 0)⟩ := by
      show slotRow serde record = _
      unfold slotRow
      rw [hjson]
      rfl
    rw [update_bind, hrow]
    unfold DbHandleSlotStore.upsert
    rw [hjson]
    refine h.slots.upsert fun row _ hkey => ?_
    obtain ⟨hregistry, hhash⟩ := Prod.mk.inj hkey
    rw [hregistry, hhash]
  · show Table.Represents _ (DbHandleSlotStore.upsert serde stores.db record).registrationRecords _
    unfold DbHandleSlotStore.upsert
    rw [hjson]
    exact h.registrations

theorem upsertRegistration_mirrored (hserde : serde.Lawful) (h : stores.Mirrored serde)
    (record : RegistrationRecord) :
    (stores.step serde (.upsertRegistration record)).Mirrored serde := by
  obtain ⟨json, hjson, -⟩ := hserde.registration record
  refine ⟨?_, ?_, ?_⟩
  · show Table.Represents _ (DbRegistrationStore.upsert serde stores.db record).handleSlotRecords _
    unfold DbRegistrationStore.upsert
    rw [hjson]
    exact h.slots
  · show Table.Represents _ (DbRegistrationStore.upsert serde stores.db record).registrationRecords
      fun key => (Function.update stores.registrations (record.registryLauncherId,
        record.handleHash) (some record) key).bind (registrationRow serde)
    have hrow : (some record).bind (registrationRow serde)
        = some ⟨record.registryLauncherId, record.handleHash, json⟩ := by
      show registrationRow serde record = _
      unfold registrationRow
      rw [hjson]
      rfl
    rw [update_bind, hrow]
    unfold DbRegistrationStore.upsert
    rw [hjson]
    refine h.registrations.upsert fun row _ hkey => ?_
    obtain ⟨hregistry, hhash⟩ := Prod.mk.inj hkey
    rw [hregistry, hhash]
  · intro key record' hrecord'
    rcases of_update_eq_some hrecord' with ⟨rfl, hsome⟩ | hrecord'
    · rw [Option.some.inj hsome]
    · exact h.keyed key record' hrecord'

/-- **Every change of both stores keeps the tables in step.** -/
theorem mirrored_step (hserde : serde.Lawful) (h : stores.Mirrored serde) (op : Op) :
    (stores.step serde op).Mirrored serde := by
  cases op with
  | upsert record => exact upsert_mirrored hserde h record
  | upsertRegistration record => exact upsertRegistration_mirrored hserde h record
  | remove key =>
      refine ⟨?_, h.registrations, h.keyed⟩
      show Table.Represents _ _ fun key' =>
        (Function.update stores.memory.inner key none key').bind (slotRow serde)
      rw [update_bind]
      exact h.slots.delete key
  | removeRegistration key =>
      refine ⟨h.slots, ?_, ?_⟩
      · show Table.Represents _ _ fun key' =>
          (Function.update stores.registrations key none key').bind (registrationRow serde)
        rw [update_bind]
        exact h.registrations.delete key
      · intro key' record hrecord
        rcases of_update_eq_some hrecord with ⟨-, hnone⟩ | hrecord
        · cases hnone
        · exact h.keyed key' record hrecord

theorem sound_step (h : stores.Sound) {op : Op} (hop : op.Lawful) :
    (stores.step serde op).Sound := by
  cases op with
  | upsert record =>
      refine ⟨fun key record' hrecord' => ?_, h.name⟩
      rcases of_update_eq_some hrecord' with ⟨rfl, hsome⟩ | hrecord'
      · rw [← Option.some.inj hsome]
        exact hop
      · exact h.slot key record' hrecord'
  | remove key =>
      refine ⟨fun key' record hrecord => ?_, h.name⟩
      rcases of_update_eq_some hrecord with ⟨-, hnone⟩ | hrecord
      · cases hnone
      · exact h.slot key' record hrecord
  | upsertRegistration record =>
      refine ⟨h.slot, fun key record' hrecord' => ?_⟩
      rcases of_update_eq_some hrecord' with ⟨rfl, hsome⟩ | hrecord'
      · rw [← Option.some.inj hsome]
        exact hop
      · exact h.name key record' hrecord'
  | removeRegistration key =>
      refine ⟨h.slot, fun key' record hrecord => ?_⟩
      rcases of_update_eq_some hrecord with ⟨-, hnone⟩ | hrecord
      · cases hnone
      · exact h.name key' record hrecord

theorem mirrored_run (hserde : serde.Lawful) (h : stores.Mirrored serde) (ops : List Op) :
    (stores.run serde ops).Mirrored serde := by
  induction ops generalizing stores with
  | nil => exact h
  | cons op ops ih => exact ih (mirrored_step hserde h op)

theorem sound_run (h : stores.Sound) {ops : List Op} (hops : ∀ op ∈ ops, op.Lawful) :
    (stores.run serde ops).Sound := by
  induction ops generalizing stores with
  | nil => exact h
  | cons op ops ih =>
      exact ih (sound_step h (hops op List.mem_cons_self)) fun o ho =>
        hops o (List.mem_cons_of_mem _ ho)

end

/-! ## What is listed in memory -/

/-- Lists in a strict order that have the same members. -/
theorem eq_of_mem_iff {L L' : List (String × StoredHandleSlot)}
    (hL : L.Pairwise fun x y => rowKey x < rowKey y)
    (hL' : L'.Pairwise fun x y => rowKey x < rowKey y) (hmem : ∀ row, row ∈ L ↔ row ∈ L') :
    L = L' := by
  have hne {x y : String × StoredHandleSlot} (h : rowKey x < rowKey y) : x ≠ y := by
    rintro rfl
    exact lt_irrefl _ h
  have hperm : L.Perm L' := (List.perm_ext_iff_of_nodup (hL.imp hne) (hL'.imp hne)).2 hmem
  exact List.Perm.eq_of_pairwise (fun x y _ _ hxy hyx => absurd (hxy.trans hyx) (lt_irrefl _))
    hL hL' hperm

/-- The stores in memory, as the requests read them. -/
def Stores.api {Json : Type} (stores : Stores Json) (memory : MemoryHandleSlotStore) :
    ListenerApiState where
  handleSlots := memory
  registrations := stores.registrations
  freshness := ⟨0, 0, 0, 0, false, false⟩
  registryPricing _ := none
  registryLauncherIds := []

section

variable {Json : Type} {serde : Serde Json} {stores : Stores Json} {query : WindowQuery}
variable {memory : MemoryHandleSlotStore}

/-- The slot of a key. -/
theorem Stores.Sound.current (h : stores.Sound) {key : Bytes × Bytes} {slot : StoredHandleSlot}
    (hslot : stores.memory.inner.current key = some slot) :
    slot.expiration < 2 ^ 63 ∧ slot.handleHash = key.2 := by
  obtain ⟨record, hrecord, hcurrent⟩ := Option.bind_eq_some_iff.1 hslot
  obtain ⟨slot', hcurrent', hexpiration, hhash⟩ := h.slot key record hrecord
  obtain rfl := Option.some.inj (hcurrent.symm.trans hcurrent')
  exact ⟨hexpiration, hhash⟩

/-- The name of a key. -/
theorem Stores.Sound.named (h : stores.Sound) {key : Bytes × Bytes} {reg : StoredRegistration}
    (hreg : stores.registrations.current key = some reg) : key.2 = nameHash reg.handle := by
  obtain ⟨record, hrecord, hcurrent⟩ := Option.bind_eq_some_iff.1 hreg
  exact h.name key record hrecord reg hcurrent

theorem api_projected (h : stores.Sound) (hmemory : memory.inner = stores.memory.inner) :
    (stores.api memory).Projected := by
  have hcurrent {key : Bytes × Bytes} {slot : StoredHandleSlot}
      (hslot : memory.inner.current key = some slot) :
      slot.expiration < 2 ^ 63 ∧ slot.handleHash = key.2 := by
    rw [hmemory] at hslot
    exact h.current hslot
  refine ⟨fun key slot hslot => (hcurrent hslot).2, fun key slot hslot => ?_, ?_⟩
  · have hlt := (hcurrent hslot).1
    unfold u64Max
    omega
  · intro registry hash hash' reg reg' hreg hreg' hname
    have hhash : hash = nameHash reg.handle := h.named hreg
    have hhash' : hash' = nameHash reg'.handle := h.named hreg'
    rw [hhash, hhash', hname]

/-- **The memory store lists the first handles that the bounds select.** -/
theorem memory_listed (query : WindowQuery) (h : stores.Sound)
    (hmemory : memory.inner = stores.memory.inner) :
    ∃ L : List (String × StoredHandleSlot), L.Pairwise (fun x y => rowKey x < rowKey y) ∧
      (∀ row, row ∈ L ↔ stores.Named query.registry row ∧ query.Selects row) ∧
      listNamedInExpirationWindow memory query.registry query.minExpiration query.maxExpiration
        query.after query.limit stores.registrations = L.take query.limit := by
  have hprojected := api_projected h hmemory
  have hkeys := nodup_rowKeys hprojected query.registry (query.minExpiration, query.maxExpiration)
  have hnamed (row : String × StoredHandleSlot) :
      (stores.api memory).Named query.registry row ↔ stores.Named query.registry row := by
    unfold ListenerApiState.Named Stores.Named
    show (∃ hash, memory.inner.current (query.registry, hash) = some row.2) ∧ _ ↔ _
    rw [hmemory]
    rfl
  have hfetch : listNamedInExpirationWindow (stores.api memory).handleSlots query.registry
      query.minExpiration query.maxExpiration query.after query.limit
      (stores.api memory).registrations
        = fetch rowKey ((stores.api memory).namedRows query.registry
            (query.minExpiration, query.maxExpiration)) (query.after.map toLex) query.limit :=
    listNamedInExpirationWindow_eq (_, _) query.after query.limit
  refine ⟨_, pairwise_listing (hkeys.sublist (List.filter_sublist.map rowKey)), fun row => ?_,
    hfetch⟩
  rw [perm_listing.mem_iff, List.mem_filter, mem_namedRows, hnamed, decide_eq_true_eq, and_assoc]
  rfl

end

/-! ## What is listed by the query -/

theorem asI64_of_lt {v : ℕ} (h : v < 2 ^ 63) : asI64 v = v := if_pos h

theorem asI64_neg {v : ℕ} (h : 2 ^ 63 ≤ v) (hv : v < 2 ^ 64) : asI64 v < 0 := by
  unfold asI64
  rw [if_neg (by omega)]
  omega

section

variable {Json : Type} {serde : Serde Json} {stores : Stores Json} {query : WindowQuery}
variable {db : ListingDb Json}

/-- **A row of the table is one of a record**, with the expiration of its slot. -/
theorem Stores.Sound.slot_of_row (h : stores.Sound) (hserde : serde.Lawful)
    {row : HandleSlotRow Json}
    (hrow : (stores.memory.inner row.key).bind (slotRow serde) = some row) :
    ∃ record slot, stores.memory.inner row.key = some record ∧ record.current = some slot ∧
      serde.slotFromStr row.recordJson = some record ∧ slot.expiration < 2 ^ 63 ∧
      row.expiration = slot.expiration ∧ slot.handleHash = row.handleHash := by
  obtain ⟨record, hrecord, hwritten⟩ := Option.bind_eq_some_iff.1 hrow
  obtain ⟨json, hjson, hrow⟩ := Option.map_eq_some_iff.1 hwritten
  obtain ⟨json', hjson', hread⟩ := hserde.slot record
  obtain rfl := Option.some.inj (hjson.symm.trans hjson')
  obtain ⟨slot, hcurrent, hlt, hhash⟩ := h.slot _ record hrecord
  refine ⟨record, slot, hrecord, hcurrent, ?_, hlt, ?_, hhash⟩
  · rw [← hrow]
    exact hread
  · rw [← hrow, hcurrent]
    exact asI64_of_lt hlt

/-- The name that is joined to a key. -/
def Stores.handleOf (stores : Stores Json) (key : Bytes × Bytes) : Option String :=
  (stores.registrations.current key).map StoredRegistration.handle

/-- **A join finds the name of the key**, if there is one. -/
theorem Stores.Mirrored.join (h : stores.Mirrored serde) (hserde : serde.Lawful)
    (hperm : db.registrationRecords.Perm stores.db.registrationRecords) (key : Bytes × Bytes) :
    ((db.registrationRecords.filter fun r => decide (r.key = key)).filterMap fun r =>
      serde.extractHandle r.recordJson) = (stores.handleOf key).toList := by
  have hkeyed (key : Bytes × Bytes) (row : RegistrationRow Json)
      (hrow : (stores.registrations key).bind (registrationRow serde) = some row) :
      row.key = key := by
    obtain ⟨record, hrecord, hwritten⟩ := Option.bind_eq_some_iff.1 hrow
    obtain ⟨json, -, rfl⟩ := Option.map_eq_some_iff.1 hwritten
    exact h.keyed key record hrecord
  rw [(h.registrations.perm hperm).join hkeyed]
  unfold Stores.handleOf RecordStore.current registrationRow
  cases stores.registrations key with
  | none => rfl
  | some record =>
      obtain ⟨json, hjson, hextract⟩ := hserde.registration record
      show List.filterMap _ ((serde.registrationToString record).map _).toList
        = (record.current.map _).toList
      rw [hjson, Option.map_some, Option.toList_some]
      cases hcurrent : record.current with
      | none => simp [hextract, hcurrent]
      | some reg => simp [hextract, hcurrent]

variable {registry : Bytes} {minExpiration maxExpiration afterExpiration : ℤ}
variable {afterHandle : String}

/-- **The query selects rows of the first table**, each at most once. -/
theorem Stores.Mirrored.selected_eq (h : stores.Mirrored serde) (hserde : serde.Lawful)
    (hperm : db.registrationRecords.Perm stores.db.registrationRecords) :
    db.selected serde registry minExpiration maxExpiration afterExpiration afterHandle
      = db.handleSlotRecords.filterMap fun row => (stores.handleOf row.key).bind fun handle =>
          if ListingDb.queried registry minExpiration maxExpiration afterExpiration afterHandle row
            handle then some (row, handle) else none := by
  unfold ListingDb.selected
  rw [List.filterMap_eq_flatMap_toList]
  refine List.flatMap_congr fun row _ => ?_
  rw [← List.filterMap_filterMap, h.join hserde hperm]
  cases stores.handleOf row.key with
  | none => rfl
  | some handle =>
      show List.filterMap _ [handle] = Option.toList (if _ then _ else _)
      split <;> simp [*]

theorem Stores.Mirrored.mem_selected (h : stores.Mirrored serde) (hserde : serde.Lawful)
    (hperm : db.registrationRecords.Perm stores.db.registrationRecords)
    {row : HandleSlotRow Json × String} :
    row ∈ db.selected serde registry minExpiration maxExpiration afterExpiration afterHandle ↔
      row.1 ∈ db.handleSlotRecords ∧ stores.handleOf row.1.key = some row.2 ∧
        ListingDb.queried registry minExpiration maxExpiration afterExpiration afterHandle row.1
          row.2 := by
  rw [h.selected_eq hserde hperm, List.mem_filterMap]
  constructor
  · rintro ⟨row', hrow', hbind⟩
    obtain ⟨handle, hhandle, hite⟩ := Option.bind_eq_some_iff.1 hbind
    rw [Option.ite_none_right_eq_some] at hite
    obtain ⟨hqueried, hsame⟩ := hite
    rw [← Option.some.inj hsame]
    exact ⟨hrow', hhandle, hqueried⟩
  · rintro ⟨hrow, hhandle, hqueried⟩
    refine ⟨row.1, hrow, ?_⟩
    rw [hhandle, Option.bind_some, if_pos hqueried]

/-- **Each row that is selected has a key of its own**: the hash of its handle. -/
theorem nodup_queryKeys (h : stores.Mirrored serde) (hserde : serde.Lawful)
    (hsound : stores.Sound) (hslots : db.handleSlotRecords.Perm stores.db.handleSlotRecords)
    (hperm : db.registrationRecords.Perm stores.db.registrationRecords) :
    ((db.selected serde registry minExpiration maxExpiration afterExpiration afterHandle).map
      ListingDb.queryKey).Nodup := by
  have hrows := h.slots.perm hslots
  have hselected {row : HandleSlotRow Json × String} (hrow : row ∈ db.selected serde registry
      minExpiration maxExpiration afterExpiration afterHandle) :
      row.1 ∈ db.handleSlotRecords ∧ row.1.key = (registry, nameHash row.2) := by
    obtain ⟨hmem, hhandle, hregistry, -⟩ := (h.mem_selected hserde hperm).1 hrow
    obtain ⟨reg, hreg, hname⟩ := Option.map_eq_some_iff.1 hhandle
    have hhash : row.1.key.2 = nameHash reg.handle := hsound.named hreg
    rw [hname] at hhash
    exact ⟨hmem, Prod.ext hregistry hhash⟩
  have hnodup : (db.selected serde registry minExpiration maxExpiration afterExpiration
      afterHandle).Nodup := by
    rw [h.selected_eq hserde hperm]
    refine hrows.nodup.of_map.filterMap fun row row' x hx hx' => ?_
    have hfst {row : HandleSlotRow Json} (hx : x ∈ (stores.handleOf row.key).bind fun handle =>
        if ListingDb.queried registry minExpiration maxExpiration afterExpiration afterHandle row
          handle then some (row, handle) else none) : x.1 = row := by
      obtain ⟨handle, -, hite⟩ := Option.bind_eq_some_iff.1 hx
      rw [Option.ite_none_right_eq_some] at hite
      rw [← Option.some.inj hite.2]
    rw [← hfst hx, hfst hx']
  refine hnodup.map_on fun x hx y hy hkey => ?_
  have hname : x.2 = y.2 := congrArg (fun k => (ofLex k).2) hkey
  obtain ⟨hx, hxkey⟩ := hselected hx
  obtain ⟨hy, hykey⟩ := hselected hy
  refine Prod.ext (hrows.eq_of_key hx hy ?_) hname
  rw [hxkey, hykey, hname]

/-- **A selected row is read as a named handle**, with the same key. -/
theorem Stores.Mirrored.readRow_eq (h : stores.Mirrored serde) (hserde : serde.Lawful)
    (hsound : stores.Sound) (hslots : db.handleSlotRecords.Perm stores.db.handleSlotRecords)
    (hperm : db.registrationRecords.Perm stores.db.registrationRecords)
    {row : HandleSlotRow Json × String} (hrow : row ∈ db.selected serde registry minExpiration
      maxExpiration afterExpiration afterHandle) :
    ∃ slot, readRow serde (row.1.recordJson, row.2) = some (row.2, slot) ∧
      row.1.expiration = slot.expiration ∧ stores.Named registry (row.2, slot) ∧
      ListingDb.queried registry minExpiration maxExpiration afterExpiration afterHandle row.1
        row.2 := by
  obtain ⟨hmem, hhandle, hqueried⟩ := (h.mem_selected hserde hperm).1 hrow
  obtain ⟨record, slot, hrecord, hcurrent, hread, -, hexpiration, hhash⟩ :=
    hsound.slot_of_row hserde (((h.slots.perm hslots).mem_iff row.1).1 hmem)
  obtain ⟨reg, hreg, hname⟩ := Option.map_eq_some_iff.1 hhandle
  have hregistry : row.1.registryLauncherId = registry := hqueried.1
  have hnamed : row.2 ≠ "" := hqueried.2.2.2.1
  have hkey : row.1.key = (registry, row.1.handleHash) := by rw [← hregistry]; rfl
  rw [hkey] at hrecord hreg
  refine ⟨slot, ?_, hexpiration, ⟨⟨row.1.handleHash, ?_⟩, reg, ?_, hname, hnamed⟩, hqueried⟩
  · unfold readRow
    rw [if_neg (by simpa using hnamed), hread, Option.bind_some, hcurrent]
    rfl
  · unfold RecordStore.current
    rw [hrecord]
    exact hcurrent
  · rw [hhash]
    exact hreg

/-- **A named handle is a row of the tables.** -/
theorem Stores.Mirrored.row_of_named (h : stores.Mirrored serde) (hserde : serde.Lawful)
    (hsound : stores.Sound) (hslots : db.handleSlotRecords.Perm stores.db.handleSlotRecords)
    {named : String × StoredHandleSlot} (hnamed : stores.Named registry named) :
    ∃ row ∈ db.handleSlotRecords, row.registryLauncherId = registry ∧
      row.expiration = named.2.expiration ∧ stores.handleOf row.key = some named.1 ∧
      readRow serde (row.recordJson, named.1) = some named := by
  obtain ⟨⟨hash, hslot⟩, reg, hreg, hname, hne⟩ := hnamed
  obtain ⟨hlt, hhash⟩ := hsound.current hslot
  obtain ⟨record, hrecord, hcurrent⟩ := Option.bind_eq_some_iff.1 hslot
  obtain ⟨json, hjson, hread⟩ := hserde.slot record
  have hkeyed : (record.registryLauncherId, record.handleHash) = (registry, hash) :=
    stores.memory.keyed _ record hrecord
  obtain ⟨hregistry, hhash'⟩ := Prod.mk.inj hkeyed
  have hexpiration : asI64 ((record.current.map StoredHandleSlot.expiration).getD 0)
      = named.2.expiration := by
    rw [hcurrent]
    exact asI64_of_lt hlt
  refine ⟨⟨registry, hash, json, named.2.expiration⟩, ?_, rfl, rfl, ?_, ?_⟩
  · rw [(h.slots.perm hslots).mem_iff]
    show (stores.memory.inner (registry, hash)).bind (slotRow serde) = _
    rw [hrecord]
    show (serde.slotToString record).map _ = _
    rw [hjson, Option.map_some, hexpiration, hregistry, hhash']
  · show (stores.registrations.current (registry, hash)).map StoredRegistration.handle = _
    rw [hhash] at hreg
    rw [hreg]
    exact congrArg some hname
  · unfold readRow
    rw [if_neg (by simpa using hne), hread, Option.bind_some, hcurrent]
    rfl

/-- Some of the rows, if each of them is read. -/
theorem filterMap_sqlLimit {α β : Type} {f : α → Option β} {rows : List α}
    (h : ∀ x ∈ rows, (f x).isSome = true) (limit : ℤ) :
    (sqlLimit limit rows).filterMap f = sqlLimit limit (rows.filterMap f) := by
  have htake (n : ℕ) : (rows.take n).filterMap f = (rows.filterMap f).take n := by
    induction rows generalizing n with
    | nil => simp
    | cons x rows ih =>
        obtain ⟨y, hy⟩ := Option.isSome_iff_exists.1 (h x List.mem_cons_self)
        cases n with
        | zero => simp
        | succ n =>
            rw [List.take_succ_cons, List.filterMap_cons_some hy, List.filterMap_cons_some hy,
              List.take_succ_cons, ih fun x' hx' => h x' (List.mem_cons_of_mem _ hx')]
  unfold sqlLimit
  split
  · rfl
  · exact htake limit.toNat

end

section

variable {Json : Type} {serde : Serde Json} {stores : Stores Json} {query : WindowQuery}
variable {db : ListingDb Json}

/-- A name that is not empty is behind the empty one. -/
theorem empty_lt {name : String} (h : name ≠ "") : "" < name := by
  rw [String.lt_iff_toList_lt]
  cases hname : name.toList with
  | nil => exact absurd (String.toList_eq_nil_iff.1 hname) h
  | cons c cs => exact List.nil_lt_cons c cs

/-- The condition of the query is that of the bounds with a sign. -/
theorem queried_iff {row : HandleSlotRow Json} {named : String × StoredHandleSlot}
    (hregistry : row.registryLauncherId = query.registry)
    (hexpiration : row.expiration = named.2.expiration) (hname : named.1 ≠ "") :
    ListingDb.queried query.registry (asI64 query.minExpiration) (asI64 query.maxExpiration)
        (asI64 (query.after.getD (0, "")).1) (query.after.getD (0, "")).2 row named.1 ↔
      query.SelectsSigned named := by
  unfold ListingDb.queried WindowQuery.SelectsSigned
  rw [hexpiration]
  have hafter : (asI64 (query.after.getD (0, "")).1 < named.2.expiration ∨
      (named.2.expiration : ℤ) = asI64 (query.after.getD (0, "")).1 ∧
        (query.after.getD (0, "")).2 < named.1) ↔
      ∀ k ∈ query.after, asI64 k.1 < named.2.expiration ∨
        ((named.2.expiration : ℤ) = asI64 k.1 ∧ k.2 < named.1) := by
    cases query.after with
    | some k => simp
    | none =>
        have hbehind : (0 : ℤ) < named.2.expiration ∨
            ((named.2.expiration : ℤ) = 0 ∧ "" < named.1) := by
          rcases Nat.eq_zero_or_pos named.2.expiration with hnow | hlater
          · exact Or.inr ⟨by exact_mod_cast hnow, empty_lt hname⟩
          · exact Or.inl (by exact_mod_cast hlater)
        exact iff_of_true hbehind (by simp)
  rw [hafter]
  exact ⟨fun h => ⟨h.2.1, h.2.2.1, h.2.2.2.2⟩, fun h => ⟨hregistry, h.1, h.2.1, hname, h.2.2⟩⟩

/-- The rows that the query selects. -/
def ListingDb.selectedBy (serde : Serde Json) (db : ListingDb Json) (query : WindowQuery) :
    List (HandleSlotRow Json × String) :=
  db.selected serde query.registry (asI64 query.minExpiration) (asI64 query.maxExpiration)
    (asI64 (query.after.getD (0, "")).1) (query.after.getD (0, "")).2

/-- The handles that are read from the rows in the order of the query. -/
def ListingDb.readRows (serde : Serde Json) (db : ListingDb Json) (query : WindowQuery) :
    List (String × StoredHandleSlot) :=
  (listing queryKey (db.selectedBy serde query)).filterMap fun row =>
    readRow serde (row.1.recordJson, row.2)

variable (query : WindowQuery) (hserde : serde.Lawful) (h : stores.Mirrored serde)
variable (hsound : stores.Sound)
variable (hslots : db.handleSlotRecords.Perm stores.db.handleSlotRecords)
variable (hperm : db.registrationRecords.Perm stores.db.registrationRecords)
include hserde h hsound hslots hperm

/-- **The order of the query is the order of the handles.** -/
theorem pairwise_readRows :
    (db.readRows serde query).Pairwise fun x y => rowKey x < rowKey y := by
  unfold ListingDb.readRows
  rw [List.pairwise_filterMap]
  refine (pairwise_listing (nodup_queryKeys h hserde hsound hslots hperm)).imp_of_mem ?_
  intro x y hx hy hlt b hb b' hb'
  obtain ⟨slot, hslot, hexpiration, -⟩ :=
    h.readRow_eq hserde hsound hslots hperm (perm_listing.mem_iff.1 hx)
  obtain ⟨slot', hslot', hexpiration', -⟩ :=
    h.readRow_eq hserde hsound hslots hperm (perm_listing.mem_iff.1 hy)
  obtain rfl := Option.some.inj (hslot.symm.trans hb)
  obtain rfl := Option.some.inj (hslot'.symm.trans hb')
  unfold ListingDb.queryKey at hlt
  rw [hexpiration, hexpiration', Prod.Lex.toLex_lt_toLex] at hlt
  unfold rowKey
  rw [Prod.Lex.toLex_lt_toLex]
  rcases hlt with hlt | ⟨heq, hname⟩
  · exact Or.inl (Nat.cast_lt.1 hlt)
  · exact Or.inr ⟨Nat.cast_inj.1 heq, hname⟩

/-- **The handles that are read** are the named ones that the bounds select with a sign. -/
theorem mem_readRows (named : String × StoredHandleSlot) : named ∈ db.readRows serde query ↔
    stores.Named query.registry named ∧ query.SelectsSigned named := by
  unfold ListingDb.readRows
  rw [List.mem_filterMap]
  constructor
  · rintro ⟨row, hrow, hsome⟩
    obtain ⟨slot, hslot, hexpiration, hnamed, hqueried⟩ :=
      h.readRow_eq hserde hsound hslots hperm (perm_listing.mem_iff.1 hrow)
    obtain rfl := Option.some.inj (hslot.symm.trans hsome)
    exact ⟨hnamed, (queried_iff hqueried.1 hexpiration hqueried.2.2.2.1).1 hqueried⟩
  · rintro ⟨hnamed, hselects⟩
    obtain ⟨row, hrow, hregistry, hexpiration, hhandle, hsome⟩ :=
      h.row_of_named hserde hsound hslots hnamed
    have hname : named.1 ≠ "" := hnamed.2.choose_spec.2.2
    refine ⟨(row, named.1), perm_listing.mem_iff.2 ?_, hsome⟩
    exact (h.mem_selected hserde hperm).2
      ⟨hrow, hhandle, (queried_iff hregistry hexpiration hname).2 hselects⟩

/-- **The database lists the first handles that the bounds select with a sign.** -/
theorem database_listed :
    ∃ L : List (String × StoredHandleSlot), L.Pairwise (fun x y => rowKey x < rowKey y) ∧
      (∀ row, row ∈ L ↔ stores.Named query.registry row ∧ query.SelectsSigned row) ∧
      DbHandleSlotStore.listNamedInExpirationWindow serde db query.registry query.minExpiration
        query.maxExpiration query.after query.limit = sqlLimit (asI64 query.limit) L := by
  refine ⟨db.readRows serde query, pairwise_readRows query hserde h hsound hslots hperm,
    mem_readRows query hserde h hsound hslots hperm, ?_⟩
  show ((sqlLimit (asI64 query.limit)
    (listing ListingDb.queryKey (db.selectedBy serde query))).map
      fun row => (row.1.recordJson, row.2)).filterMap (readRow serde) = _
  rw [List.filterMap_map]
  refine filterMap_sqlLimit (fun row hrow => ?_) _
  obtain ⟨slot, hslot, -⟩ :=
    h.readRow_eq hserde hsound hslots hperm (perm_listing.mem_iff.1 hrow)
  exact Option.isSome_iff_exists.2 ⟨_, hslot⟩

end

/-! ## When the listings agree -/

section

variable {Json : Type} {serde : Serde Json} {stores : Stores Json} {query : WindowQuery}

/-- No more handles are selected than the limit. -/
def Stores.Fits (stores : Stores Json) (query : WindowQuery) : Prop :=
  ∀ rows : List (String × StoredHandleSlot), rows.Nodup →
    (∀ row ∈ rows, stores.Named query.registry row ∧ query.Selects row) → rows.length ≤ query.limit

theorem sqlLimit_of_lt {α : Type} {limit : ℕ} (h : limit < 2 ^ 63) (rows : List α) :
    sqlLimit (asI64 limit) rows = rows.take limit := by
  unfold sqlLimit
  rw [asI64_of_lt h, if_neg (by omega), Int.toNat_natCast]

theorem sqlLimit_of_ge {α : Type} {limit : ℕ} (h : 2 ^ 63 ≤ limit) (hlimit : limit < 2 ^ 64)
    (rows : List α) : sqlLimit (asI64 limit) rows = rows :=
  if_pos (asI64_neg h hlimit)

/-- A part of the rows has one, if there is one. -/
theorem sqlLimit_eq_nil {α : Type} {limit : ℕ} (hpos : limit ≠ 0) (hlimit : limit < 2 ^ 64)
    (rows : List α) : sqlLimit (asI64 limit) rows = [] ↔ rows = [] := by
  rcases Nat.lt_or_ge limit (2 ^ 63) with hlt | hge
  · rw [sqlLimit_of_lt hlt, List.take_eq_nil_iff]
    exact or_iff_right hpos
  · rw [sqlLimit_of_ge hge hlimit]

/-- **Bounds without a sign bit are the same with a sign.** -/
theorem selects_iff (h : query.Representable) (row : String × StoredHandleSlot) :
    query.SelectsSigned row ↔ query.Selects row := by
  obtain ⟨hmin, hmax, hafter⟩ := h
  unfold WindowQuery.SelectsSigned WindowQuery.Selects
  rw [asI64_of_lt hmin, asI64_of_lt hmax, and_assoc]
  refine and_congr (by exact_mod_cast Iff.rfl) (and_congr (by exact_mod_cast Iff.rfl) ?_)
  cases hcursor : query.after with
  | none => simp
  | some k =>
      have hk : asI64 k.1 = k.1 := asI64_of_lt (hafter k (by rw [hcursor]; rfl))
      obtain ⟨exp, name⟩ := k
      simp only [Option.mem_some_iff, forall_eq', Option.map_some, rowKey,
        Prod.Lex.toLex_lt_toLex]
      rw [hk]
      exact or_congr Nat.cast_lt (and_congr (Nat.cast_inj.trans eq_comm) Iff.rfl)

/-- **Bounds with a sign bit select nothing**, the lower ones without a sign and the upper one
with it. -/
theorem selects_none (h : ¬ query.Representable) :
    (∀ row, row.2.expiration < 2 ^ 63 → ¬ query.Selects row) ∨
      ∀ row, ¬ query.SelectsSigned row := by
  by_cases hmax : query.maxExpiration < 2 ^ 63
  · left
    rintro row hrow ⟨⟨hle, -⟩, hbehind⟩
    refine h ⟨lt_of_le_of_lt hle hrow, hmax, fun k hk => lt_of_le_of_lt ?_ hrow⟩
    rcases Prod.Lex.toLex_lt_toLex.1 (hbehind (toLex k) (Option.mem_map_of_mem toLex hk)) with
      hlt | ⟨heq, -⟩
    · exact hlt.le
    · exact heq.le
  · right
    rintro row ⟨-, hle, -⟩
    have hneg := asI64_neg (not_lt.1 hmax) query.max_lt
    omega

/-- **The listings agree if parts of two lists are the same.** -/
theorem agree_iff (hserde : serde.Lawful) (h : stores.Mirrored serde) (hsound : stores.Sound)
    (query : WindowQuery) : ∃ M D : List (String × StoredHandleSlot),
      M.Pairwise (fun x y => rowKey x < rowKey y) ∧ D.Pairwise (fun x y => rowKey x < rowKey y) ∧
      (∀ row, row ∈ M ↔ stores.Named query.registry row ∧ query.Selects row) ∧
      (∀ row, row ∈ D ↔ stores.Named query.registry row ∧ query.SelectsSigned row) ∧
      (Agree serde stores query ↔ M.take query.limit = sqlLimit (asI64 query.limit) D) := by
  obtain ⟨M, hM, hmemM, hlistM⟩ := memory_listed query hsound rfl
  obtain ⟨D, hD, hmemD, hlistD⟩ :=
    database_listed query hserde h hsound (List.Perm.refl _) (List.Perm.refl _)
  refine ⟨M, D, hM, hD, hmemM, hmemD, fun hagree => ?_,
    fun hsame memory hmemory db hslots hperm => ?_⟩
  · rw [← hlistM, ← hlistD]
    exact hagree stores.memory rfl stores.db (List.Perm.refl _) (List.Perm.refl _)
  · obtain ⟨M', hM', hmemM', hlistM'⟩ := memory_listed query hsound hmemory
    obtain ⟨D', hD', hmemD', hlistD'⟩ :=
      database_listed query hserde h hsound hslots hperm
    obtain rfl := eq_of_mem_iff hM hM' fun row => (hmemM row).trans (hmemM' row).symm
    obtain rfl := eq_of_mem_iff hD hD' fun row => (hmemD row).trans (hmemD' row).symm
    rw [hlistM', hlistD', hsame]

theorem Stores.Sound.named_lt (h : stores.Sound) {registry : Bytes}
    {row : String × StoredHandleSlot} (hrow : stores.Named registry row) :
    row.2.expiration < 2 ^ 63 := by
  obtain ⟨⟨hash, hcurrent⟩, -⟩ := hrow
  exact (h.current hcurrent).1

section

variable {M D : List (String × StoredHandleSlot)}
variable (hmemM : ∀ row, row ∈ M ↔ stores.Named query.registry row ∧ query.Selects row)
include hmemM

theorem fits_iff (hM : M.Pairwise fun x y => rowKey x < rowKey y) :
    stores.Fits query ↔ M.length ≤ query.limit := by
  constructor
  · intro hfits
    refine hfits M (hM.imp fun {x y} hlt => ?_) fun row hrow => (hmemM row).1 hrow
    rintro rfl
    exact lt_irrefl _ hlt
  · intro hle rows hnodup hrows
    have hsubset : rows ⊆ M := fun row hrow => (hmemM row).2 (hrows row hrow)
    exact (List.subperm_of_subset hnodup hsubset).length_le.trans hle

/-- **If a handle is listed with both readings of the bounds**, they have no sign bit. -/
theorem representable_of_some (hsound : stores.Sound)
    (hmemD : ∀ row, row ∈ D ↔ stores.Named query.registry row ∧ query.SelectsSigned row)
    (hM : M ≠ []) (hD : D ≠ []) : query.Representable := by
  by_contra hnot
  rcases selects_none hnot with hall | hall
  · refine hM (List.eq_nil_iff_forall_not_mem.2 fun row hrow => ?_)
    obtain ⟨hnamed, hselects⟩ := (hmemM row).1 hrow
    exact hall row (hsound.named_lt hnamed) hselects
  · exact hD (List.eq_nil_iff_forall_not_mem.2 fun row hrow => hall row ((hmemD row).1 hrow).2)

end

end

/-- **When the stores list the same**, after whatever is done to both: the request is for no
handles, or the bounds and the cursor are below `2 ^ 63`, and so is the limit or it is not
reached, or there is no handle to be listed, with or without a sign. -/
theorem listings_agree_iff {Json : Type} (serde : Serde Json) (hserde : serde.Lawful)
    (ops : List Op) (hops : ∀ op ∈ ops, op.Lawful) (query : WindowQuery) :
    Agree serde ((Stores.new Json).run serde ops) query ↔
      query.limit = 0 ∨
      (query.Representable ∧
        (query.limit < 2 ^ 63 ∨ ((Stores.new Json).run serde ops).Fits query)) ∨
      ∀ row, ((Stores.new Json).run serde ops).Named query.registry row →
        ¬ query.Selects row ∧ ¬ query.SelectsSigned row := by
  have hmirrored := mirrored_run hserde mirrored_new ops
  have hsound : ((Stores.new Json).run serde ops).Sound := sound_run sound_new hops
  obtain ⟨M, D, hM, hD, hmemM, hmemD, hagree⟩ := agree_iff hserde hmirrored hsound query
  rw [hagree]
  constructor
  · intro hsame
    by_cases hzero : query.limit = 0
    · exact Or.inl hzero
    refine Or.inr ?_
    have hempty : M = [] ↔ D = [] := by
      rw [← sqlLimit_eq_nil hzero query.limit_lt D, ← hsame, List.take_eq_nil_iff]
      exact (or_iff_right hzero).symm
    by_cases hnone : M = []
    · -- no handle is listed
      refine Or.inr fun row hrow => ⟨fun hselects => ?_, fun hselects => ?_⟩
      · have hrow : row ∈ M := (hmemM row).2 ⟨hrow, hselects⟩
        rw [hnone] at hrow
        cases hrow
      · have hrow : row ∈ D := (hmemD row).2 ⟨hrow, hselects⟩
        rw [hempty.1 hnone] at hrow
        cases hrow
    · have hrepresentable : query.Representable :=
        representable_of_some hmemM hsound hmemD hnone fun hnil => hnone (hempty.2 hnil)
      refine Or.inl ⟨hrepresentable, ?_⟩
      rw [or_iff_not_imp_left, not_lt, fits_iff hmemM hM]
      intro hlimit
      rw [sqlLimit_of_ge hlimit query.limit_lt] at hsame
      obtain rfl : M = D := eq_of_mem_iff hM hD fun row => by
        rw [hmemM, hmemD, selects_iff hrepresentable]
      exact (List.take_eq_self_iff M).1 hsame
  · rintro (hzero | ⟨hrepresentable, hfits⟩ | hnone)
    · rw [hzero]
      rfl
    · obtain rfl : M = D := eq_of_mem_iff hM hD fun row => by
        rw [hmemM, hmemD, selects_iff hrepresentable]
      rcases Nat.lt_or_ge query.limit (2 ^ 63) with hlt | hge
      · exact (sqlLimit_of_lt hlt M).symm
      · rw [sqlLimit_of_ge hge query.limit_lt]
        exact List.take_of_length_le ((fits_iff hmemM hM).1 (hfits.resolve_left (not_lt.2 hge)))
    · have hnil {L : List (String × StoredHandleSlot)} (hL : ∀ row, row ∉ L) : L = [] :=
        List.eq_nil_iff_forall_not_mem.2 hL
      rw [hnil fun row hrow => (hnone row ((hmemM row).1 hrow).1).1 ((hmemM row).1 hrow).2,
        hnil fun row hrow => (hnone row ((hmemD row).1 hrow).1).2 ((hmemD row).1 hrow).2]
      simp [sqlLimit]

/-! ## A handle with a name -/

namespace ListingExample

open DirectoryExample

/-- Documents, as the records they are written for. -/
def serde : Serde (HandleSlotRecord ⊕ RegistrationRecord) where
  slotToString record := some (.inl record)
  slotFromStr
    | .inl record => some record
    | .inr _ => none
  registrationToString record := some (.inr record)
  extractHandle
    | .inl _ => none
    | .inr record => record.current.map StoredRegistration.handle

theorem serde_lawful : serde.Lawful where
  slot _ := ⟨_, rfl, rfl⟩
  registration _ := ⟨_, rfl, rfl⟩

/-- The slot of `alice`, until 100 seconds after the epoch. -/
def alice : StoredHandleSlot := { slot 0 100 with handleHash := nameHash "alice" }

/-- `alice` is registered. -/
def ops : List Op :=
  [.upsertRegistration ⟨⟨some (registration "alice" 0), []⟩, registry, nameHash "alice"⟩,
    .upsert ⟨⟨some alice, []⟩, registry, nameHash "alice"⟩]

theorem ops_lawful : ∀ op ∈ ops, op.Lawful := by
  intro op hop
  rcases List.mem_pair.1 hop with rfl | rfl
  · intro reg hreg
    rw [← Option.some.inj hreg]
    rfl
  · exact ⟨alice, rfl, by decide, rfl⟩

/-- The stores. -/
abbrev stores : Stores (HandleSlotRecord ⊕ RegistrationRecord) := (Stores.new _).run serde ops

theorem named_alice : stores.Named registry ("alice", alice) := by
  have hcurrent {T : Type} (store : RecordStore T) (key : Bytes × Bytes) (record : Record T) :
      RecordStore.current (Function.update store key (some record)) key = record.current := by
    unfold RecordStore.current
    rw [Function.update_self]
    rfl
  exact ⟨⟨nameHash "alice", hcurrent _ _ _⟩, registration "alice" 0, hcurrent _ _ _, rfl,
    by decide⟩

/-- The handles of the first 1000 seconds, from a cursor on. -/
def query (expiration : ℕ) (h : expiration < 2 ^ 64) : WindowQuery where
  registry := registry
  minExpiration := 0
  maxExpiration := 1000
  after := some (expiration, "bob")
  limit := 10
  min_lt := by decide
  max_lt := by decide
  after_lt := by simpa using h
  limit_lt := by decide

end ListingExample

open ListingExample in
/-- A cursor at the expiration of a handle. -/
theorem listings_agree_bob : serde.Lawful ∧ (∀ op ∈ ops, op.Lawful) ∧
    Agree serde ((Stores.new _).run serde ops) (query 100 (by decide)) := by
  refine ⟨serde_lawful, ops_lawful,
    (listings_agree_iff serde serde_lawful ops ops_lawful (query 100 (by decide))).2
      (Or.inr (Or.inl ⟨⟨by decide, by decide, ?_⟩, Or.inl (by decide)⟩))⟩
  intro k hk
  rw [← Option.some.inj hk]
  decide

open ListingExample DirectoryExample in
/-- **A cursor behind every handle is before all of them in the database**: `2 ^ 63` with a sign
is negative. -/
theorem listings_disagree : serde.Lawful ∧ (∀ op ∈ ops, op.Lawful) ∧
    ¬ Agree serde ((Stores.new _).run serde ops) (query (2 ^ 63) (by decide)) := by
  refine ⟨serde_lawful, ops_lawful, ?_⟩
  have hsound : stores.Sound := sound_run sound_new ops_lawful
  obtain ⟨M, D, -, -, hmemM, hmemD, hagree⟩ := agree_iff serde_lawful
    (mirrored_run serde_lawful mirrored_new ops) hsound (query (2 ^ 63) (by decide))
  rw [hagree]
  intro hsame
  have hM : M = [] := by
    refine List.eq_nil_iff_forall_not_mem.2 fun row hrow => ?_
    obtain ⟨hnamed, -, hbehind⟩ := (hmemM row).1 hrow
    have hlt := hsound.named_lt hnamed
    rcases Prod.Lex.toLex_lt_toLex.1 (hbehind (toLex (2 ^ 63, "bob")) rfl) with hlater | ⟨heq, -⟩
    · exact absurd hlater (not_lt.2 hlt.le)
    · exact hlt.ne heq.symm
  have hD : ("alice", alice) ∈ D := by
    refine (hmemD _).2 ⟨named_alice, by decide, by decide, fun k hk => ?_⟩
    rw [← Option.some.inj hk]
    exact Or.inl (by decide)
  rw [hM, List.take_nil] at hsame
  rw [(sqlLimit_eq_nil (by decide) (by decide) D).1 hsame.symm] at hD
  cases hD

end SlotMachine.Listener
