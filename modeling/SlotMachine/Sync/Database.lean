import SlotMachine.Clvm.Value
import SlotMachine.Ledger.Table

/-!
# The database of the sync

The tables that the sync of a registry writes, and the queries it makes.

* `Slot`, `SlotRow`, `SingletonCoinRow` — the rows.
* `Db` — the tables.
* `Db.saveSlot`, `Db.markSlotAsSpent`, `Db.saveSingletonCoin` and so on — the statements.
* `Db.getXchandlesNeighbors`, `Db.getCatalogNeighbors` — the slots next to a key.
* `Db.SameSlots` — statements about coins leave the slots alone.
-/

namespace SlotMachine.Sync

/-- `CliError`, as far as the sync raises it. -/
inductive CliError where
  | coinNotFound (coinId : Bytes)
  | coinNotSpent (coinId : Bytes)
  | dbColumnNotFound
  | driver (message : String)
  | custom (message : String)
  deriving DecidableEq

/-! ## Rows -/

/-- `LineageProof`: the coin that created a slot. -/
structure LineageProof where
  parentParentCoinInfo : Bytes
  parentInnerPuzzleHash : Bytes
  parentAmount : ℕ
  deriving DecidableEq

/-- `Slot`. -/
structure Slot (V : Type) where
  launcherId : Bytes
  nonce : ℕ
  value : V
  valueHash : Bytes
  proof : LineageProof

/-- The primary key of `slots`. -/
def Slot.primaryKey {V : Type} (s : Slot V) : Bytes × ℕ × Bytes × Bytes × ℕ :=
  (s.launcherId, s.nonce, s.valueHash, s.proof.parentParentCoinInfo, s.proof.parentAmount)

/-- A row of `slots`.  A slot that is not spent has the height zero. -/
structure SlotRow (V : Type) where
  slot : Slot V
  spentBlockHeight : ℕ

/-- A row of `singleton_coins`. -/
structure SingletonCoinRow where
  launcherId : Bytes
  coinId : Bytes
  parentCoinId : Bytes
  spentBlockHeight : ℕ
  deriving DecidableEq

/-- `Coin`, with its id. -/
structure Coin where
  coinId : Bytes
  parentCoinInfo : Bytes
  amount : ℕ
  deriving DecidableEq

/-- `CoinRecord`. -/
structure CoinRecord where
  coin : Coin
  confirmedBlockIndex : ℕ
  spent : Bool
  spentBlockIndex : ℕ
  deriving DecidableEq

/-- The constants of a registry. -/
structure RegistryConstants where
  launcherId : Bytes
  parameters : Clvm
  deriving DecidableEq

/-! ## Tables -/

/-- The tables. -/
structure Db (V : Type) where
  slots : List (SlotRow V)
  catalogIndexed : List (Bytes × Bytes)
  xchandlesIndexed : List ((Bytes × Bytes) × Bytes)
  singletonCoins : List SingletonCoinRow
  xchandlesConfigurations : List RegistryConstants

namespace Db

variable {V : Type}

/-- The database as it is created. -/
def empty : Db V := ⟨[], [], [], [], []⟩

variable (db : Db V)

/-- `save_slot`. -/
def saveSlot (slot : Slot V) (spentBlockHeight : ℕ) : Db V :=
  { db with
    slots := Table.upsert (fun r : SlotRow V => r.slot.primaryKey)
      (fun r => { r with spentBlockHeight := spentBlockHeight }) ⟨slot, spentBlockHeight⟩ db.slots }

/-- `mark_slot_as_spent`. -/
def markSlotAsSpent (launcherId : Bytes) (nonce : ℕ) (slotValueHash : Bytes)
    (spentBlockHeight : ℕ) : Db V :=
  { db with
    slots := Table.update
      (fun r => r.slot.launcherId = launcherId ∧ r.slot.nonce = nonce ∧
        r.slot.valueHash = slotValueHash ∧ r.spentBlockHeight = 0)
      (fun r => { r with spentBlockHeight := spentBlockHeight }) db.slots }

/-- `save_catalog_indexed_slot_value`. -/
def saveCatalogIndexedSlotValue (assetId slotValueHash : Bytes) : Db V :=
  { db with
    catalogIndexed :=
      Table.upsert Prod.fst (fun r => (r.1, slotValueHash)) (assetId, slotValueHash)
        db.catalogIndexed }

/-- `get_catalog_indexed_slot_value`. -/
def getCatalogIndexedSlotValue (assetId : Bytes) : Option Bytes :=
  (db.catalogIndexed.find? fun r => r.1 = assetId).map Prod.snd

/-- `save_xchandles_indexed_slot_value`. -/
def saveXchandlesIndexedSlotValue (launcherId handleHash slotValueHash : Bytes) : Db V :=
  { db with
    xchandlesIndexed :=
      Table.upsert Prod.fst (fun r => (r.1, slotValueHash)) ((launcherId, handleHash), slotValueHash)
        db.xchandlesIndexed }

/-- `get_xchandles_indexed_slot_value`. -/
def getXchandlesIndexedSlotValue (launcherId handleHash : Bytes) : Option Bytes :=
  (db.xchandlesIndexed.find? fun r => r.1 = (launcherId, handleHash)).map Prod.snd

/-- `get_slot`: a slot with the value hash and the spent height. -/
def getSlot (launcherId : Bytes) (nonce : ℕ) (slotValueHash : Bytes) (spentBlockHeight : ℕ) :
    Option (Slot V) :=
  (db.slots.find? fun r => r.slot.launcherId = launcherId ∧ r.slot.nonce = nonce ∧
    r.slot.valueHash = slotValueHash ∧ r.spentBlockHeight = spentBlockHeight).map SlotRow.slot

/-- The two slots of a query for neighbours, given what the index has on each side. -/
def neighbors (launcherId : Bytes) (nonce : ℕ) (left right : Option Bytes) :
    Except CliError (Slot V × Slot V) :=
  match left.bind (db.getSlot launcherId nonce · 0), right.bind (db.getSlot launcherId nonce · 0) with
  | some l, some r => .ok (l, r)
  | _, _ => .error .dbColumnNotFound

/-- `get_catalog_neighbors`. -/
def getCatalogNeighbors (launcherId assetId : Bytes) : Except CliError (Slot V × Slot V) :=
  db.neighbors launcherId 0
    ((Table.greatestBelow Prod.fst assetId db.catalogIndexed).map Prod.snd)
    ((Table.leastAbove Prod.fst assetId db.catalogIndexed).map Prod.snd)

/-- The index of one XCHandles registry. -/
def handlesOf (launcherId : Bytes) : List ((Bytes × Bytes) × Bytes) :=
  db.xchandlesIndexed.filter fun r => r.1.1 = launcherId

/-- `get_xchandles_neighbors`; `nonce` is that of the handle slots. -/
def getXchandlesNeighbors (nonce : ℕ) (launcherId handleHash : Bytes) :
    Except CliError (Slot V × Slot V) :=
  db.neighbors launcherId nonce
    ((Table.greatestBelow (fun r => r.1.2) handleHash (db.handlesOf launcherId)).map Prod.snd)
    ((Table.leastAbove (fun r => r.1.2) handleHash (db.handlesOf launcherId)).map Prod.snd)

/-- The first statement of `save_singleton_coin`: the parent is spent. -/
def spendParentCoin (record : CoinRecord) : Db V :=
  { db with
    singletonCoins := Table.update
      (fun r => r.coinId = record.coin.parentCoinInfo ∧ r.spentBlockHeight = 0)
      (fun r => { r with spentBlockHeight := record.confirmedBlockIndex }) db.singletonCoins }

/-- The second statement of `save_singleton_coin`: the coin itself. -/
def insertSingletonCoin (launcherId : Bytes) (record : CoinRecord) : Db V :=
  { db with
    singletonCoins := Table.upsert SingletonCoinRow.coinId id
      ⟨launcherId, record.coin.coinId, record.coin.parentCoinInfo, record.spentBlockIndex⟩
      db.singletonCoins }

/-- `get_last_unspent_singleton_coin`: the coin and its parent. -/
def getLastUnspentSingletonCoin (launcherId : Bytes) : Option (Bytes × Bytes) :=
  (db.singletonCoins.find? fun r => r.launcherId = launcherId ∧ r.spentBlockHeight = 0).map
    fun r => (r.coinId, r.parentCoinId)

/-- `save_xchandles_configuration`. -/
def saveXchandlesConfiguration (constants : RegistryConstants) : Db V :=
  { db with
    xchandlesConfigurations := Table.upsert RegistryConstants.launcherId
      (fun _ => constants) constants db.xchandlesConfigurations }

/-- `get_xchandles_configuration`. -/
def getXchandlesConfiguration (launcherId : Bytes) : Option RegistryConstants :=
  db.xchandlesConfigurations.find? fun r => r.launcherId = launcherId

end Db

/-! ## A write, and several -/

/-- A statement that changes the database.  A process can stop between any two. -/
abbrev Write (V : Type) := Db V → Db V

variable {V : Type}

/-- Several statements, the first one first. -/
def runWrites (ws : List (Write V)) (db : Db V) : Db V := ws.foldl (fun db w => w db) db

@[simp] theorem runWrites_nil (db : Db V) : runWrites [] db = db := rfl

@[simp] theorem runWrites_cons (w : Write V) (ws : List (Write V)) (db : Db V) :
    runWrites (w :: ws) db = runWrites ws (w db) := rfl

theorem runWrites_append (ws ws' : List (Write V)) (db : Db V) :
    runWrites (ws ++ ws') db = runWrites ws' (runWrites ws db) :=
  List.foldl_append

/-- `save_singleton_coin`. -/
def saveSingletonCoin (launcherId : Bytes) (record : CoinRecord) : List (Write V) :=
  [fun db => db.spendParentCoin record, fun db => db.insertSingletonCoin launcherId record]

/-- The slots and their index are the same. -/
structure Db.SameSlots (db db' : Db V) : Prop where
  slots_eq : db'.slots = db.slots
  catalogIndexed_eq : db'.catalogIndexed = db.catalogIndexed
  xchandlesIndexed_eq : db'.xchandlesIndexed = db.xchandlesIndexed

/-- The coins and the constants are the same. -/
structure Db.SameCoins (db db' : Db V) : Prop where
  singletonCoins_eq : db'.singletonCoins = db.singletonCoins
  xchandlesConfigurations_eq : db'.xchandlesConfigurations = db.xchandlesConfigurations

theorem Db.SameCoins.runWrites {ws : List (Write V)} (h : ∀ w ∈ ws, ∀ db : Db V, db.SameCoins (w db))
    (db : Db V) : db.SameCoins (runWrites ws db) := by
  induction ws generalizing db with
  | nil => exact ⟨rfl, rfl⟩
  | cons w ws ih =>
      have hfirst := h w List.mem_cons_self db
      have hrest := ih (fun w' hw' => h w' (List.mem_cons_of_mem _ hw')) (w db)
      exact ⟨hrest.1.trans hfirst.1, hrest.2.trans hfirst.2⟩

end SlotMachine.Sync
