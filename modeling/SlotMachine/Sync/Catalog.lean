import SlotMachine.Catalog.History
import SlotMachine.Sync.Issued

/-!
# The sync of a CATalog registry

`sync_catalog` first marks the slots that the index has for what a spend spent, and
then saves and indexes every slot that it created more often than it spent it.

* `catalogRegistryFromLauncher` — where a sync starts without a saved coin.
* `storeCatalogSlots`, `survivors` — what is written for a spend.
* `syncCatalog` — the protocol of the sync.
* `mem_survivorsFrom` — the slots that are saved are **those created more often than spent**.
-/

namespace SlotMachine.Sync

open Journal
open Catalog (CatalogSlotValue)

/-- The tree hash of a slot. -/
def catalogTreeHash (v : CatalogSlotValue) : Bytes :=
  (HashOracle.sha256.treeHash v.toClvm).getD []

/-! ## The protocol -/

/-- A condition of the eve coin, as far as the sync reads it. -/
inductive EveCondition where
  | createCoin (puzzleHash : Bytes) (amount : ℕ) (memos : Option Clvm)
  | other
  deriving DecidableEq

/-- What the sync takes of the driver. -/
structure CatalogDriver (Sp : Type) where
  /-- `Coin::new`, with the id of the coin. -/
  newCoin : Bytes → Bytes → ℕ → Coin
  /-- The puzzle hash in the solution of the launcher. -/
  launcherSolution : Sp → Except CliError Bytes
  coinOf : Sp → Coin
  /-- The tree hash of the inner puzzle, if the puzzle is a singleton's. -/
  singletonInnerPuzzleHash : Sp → Except CliError (Option Bytes)
  /-- The conditions that the puzzle returns for the solution. -/
  output : Sp → Except CliError (List EveCondition)
  /-- The launcher id and the initial state in the memos. -/
  readMemos : Clvm → Except CliError (Bytes × Clvm)
  /-- `CatalogRegistryInfo::inner_puzzle_hash`. -/
  innerPuzzleHash : Clvm → RegistryConstants → Bytes
  initialLeftEnd : CatalogSlotValue
  initialRightEnd : CatalogSlotValue
  fromParentSpend : Sp → RegistryConstants → Except CliError (Option RegistryCoin)
  fromSpend : Sp → RegistryConstants → Except CliError (Option (PendingSpend CatalogSlotValue Empty))
  fromMempoolItem : Sp → RegistryConstants → Except CliError (Option RegistryCoin)

section

variable {Sp : Type} (D : CatalogDriver Sp) (constants : RegistryConstants)

/-- The first odd coin of the eve coin, the singleton. -/
def oddCreateCoin (conditions : List EveCondition) : Option (Bytes × ℕ × Option Clvm) :=
  conditions.findSome? fun
    | .createCoin puzzleHash amount memos =>
        if amount % 2 = 1 then some (puzzleHash, amount, memos) else none
    | .other => none

/-- The registry and its first slots, from the launcher coin. -/
def catalogRegistryFromLauncher (node : Node Sp) :
    Except CliError (RegistryCoin × List (Slot CatalogSlotValue)) := do
  let some launcherRecord := node.coinRecord constants.launcherId
    | .error (.coinNotFound constants.launcherId)
  let some launcherSpend := node.puzzleAndSolution constants.launcherId
      launcherRecord.spentBlockIndex
    | .error (.coinNotSpent constants.launcherId)
  let singletonPuzzleHash ← D.launcherSolution launcherSpend
  let eve := D.newCoin constants.launcherId singletonPuzzleHash 1
  let some eveSpend := node.puzzleAndSolution eve.coinId launcherRecord.confirmedBlockIndex
    | .error (.coinNotSpent eve.coinId)
  let some eveInnerPuzzleHash ← D.singletonInnerPuzzleHash eveSpend
    | .error (.driver "Could not parse eve CATalog coin puzzle")
  let conditions ← D.output eveSpend
  let some (puzzleHash, amount, memos) := oddCreateCoin conditions
    | .error (.custom "Could not find odd create coin in CATalog eve coin")
  let some memos := memos | .error (.driver "MissingHint")
  let (decodedLauncherId, initialState) ← D.readMemos memos
  if decodedLauncherId ≠ constants.launcherId then
    .error (.custom "CATalog launcher ID mismatch")
  let proof : LineageProof :=
    ⟨(D.coinOf eveSpend).parentCoinInfo, eveInnerPuzzleHash, (D.coinOf eveSpend).amount⟩
  let slot (v : CatalogSlotValue) : Slot CatalogSlotValue :=
    ⟨constants.launcherId, 0, v, catalogTreeHash v, proof⟩
  return (⟨D.newCoin eve.coinId puzzleHash amount, D.innerPuzzleHash initialState constants,
    constants⟩, [slot D.initialLeftEnd, slot D.initialRightEnd])

/-- The initial slots are saved and indexed. -/
def storeInitialCatalogSlots (slots : List (Slot CatalogSlotValue)) :
    List (Write CatalogSlotValue) :=
  slots.flatMap fun s =>
    [fun db => db.saveSlot s 0,
      fun db => db.saveCatalogIndexedSlotValue s.value.assetId s.valueHash]

/-- What the index has for an asset is marked as spent. -/
def markIndexed (launcherId : Bytes) (height : ℕ) (assetId : Bytes) : Write CatalogSlotValue :=
  fun db =>
    match db.getCatalogIndexedSlotValue assetId with
    | some previousValueHash => db.markSlotAsSpent launcherId 0 previousValueHash height
    | none => db

/-- The created slots that are saved: each value once, if it was created more often than
spent. -/
def survivorsFrom (created spent : List CatalogSlotValue) :
    List Bytes → List CatalogSlotValue → List CatalogSlotValue
  | _, [] => []
  | processedValues, v :: vs =>
      if catalogTreeHash v ∈ processedValues then survivorsFrom created spent processedValues vs
      else if created.count v ≤ spent.count v then
        survivorsFrom created spent (catalogTreeHash v :: processedValues) vs
      else v :: survivorsFrom created spent (catalogTreeHash v :: processedValues) vs

/-- The slots of a spend that are saved. -/
def survivors (pending : PendingSpend CatalogSlotValue Empty) : List CatalogSlotValue :=
  survivorsFrom pending.created pending.spent [] pending.created

/-- The slots spent are marked, and then the ones left are indexed and saved. -/
def storeCatalogSlots (pending : PendingSpend CatalogSlotValue Empty) (height : ℕ) :
    List (Write CatalogSlotValue) :=
  (pending.spent.map fun v => markIndexed constants.launcherId height v.assetId)
  ++ (survivors pending).flatMap fun v =>
    [fun db => db.saveCatalogIndexedSlotValue v.assetId (catalogTreeHash v),
      fun db => db.saveSlot (pending.registry.slot catalogTreeHash 0 v) 0]

/-- `sync_catalog`. -/
def syncCatalog : Protocol Sp CatalogSlotValue Empty where
  launcherId := constants.launcherId
  given := some constants
  launch := catalogRegistryFromLauncher D constants
  storeInitial := storeInitialCatalogSlots
  fromParentSpend spend _ := D.fromParentSpend spend constants
  fromSpend spend _ := D.fromSpend spend constants
  fromMempoolItem item _ := D.fromMempoolItem item constants
  store := storeCatalogSlots constants
  unparsed := "Could not parse new CATalog registry spend"

end

/-! ## The slots that are saved -/

section

variable {created spent vs : List CatalogSlotValue} {v : CatalogSlotValue}

theorem mem_survivorsFrom {processedValues : List Bytes}
    (hinj : ∀ v ∈ vs, ∀ w ∈ vs, catalogTreeHash v = catalogTreeHash w → v = w) :
    v ∈ survivorsFrom created spent processedValues vs ↔
      v ∈ vs ∧ catalogTreeHash v ∉ processedValues ∧ spent.count v < created.count v := by
  induction vs generalizing processedValues with
  | nil => simp [survivorsFrom]
  | cons w vs ih =>
      have ih' : ∀ processedValues, v ∈ survivorsFrom created spent processedValues vs ↔
          v ∈ vs ∧ catalogTreeHash v ∉ processedValues ∧ spent.count v < created.count v :=
        fun _ => ih fun v hv w hw =>
          hinj v (List.mem_cons_of_mem _ hv) w (List.mem_cons_of_mem _ hw)
      have hhead : v ∈ vs → catalogTreeHash v = catalogTreeHash w → v = w := fun hv =>
        hinj v (List.mem_cons_of_mem _ hv) w List.mem_cons_self
      unfold survivorsFrom
      by_cases hprocessed : catalogTreeHash w ∈ processedValues
      · rw [if_pos hprocessed, ih']
        constructor
        · rintro ⟨hv, hrest⟩
          exact ⟨List.mem_cons_of_mem _ hv, hrest⟩
        · rintro ⟨hv, hnot, hcount⟩
          rcases List.mem_cons.1 hv with rfl | hv
          · exact absurd hprocessed hnot
          · exact ⟨hv, hnot, hcount⟩
      · rw [if_neg hprocessed]
        have hrest : v ≠ w → (v ∈ survivorsFrom created spent
            (catalogTreeHash w :: processedValues) vs ↔
              v ∈ vs ∧ catalogTreeHash v ∉ processedValues ∧ spent.count v < created.count v) := by
          intro hne
          rw [ih', List.mem_cons, not_or]
          exact ⟨fun h => ⟨h.1, h.2.1.2, h.2.2⟩,
            fun h => ⟨h.1, ⟨fun heq => hne (hhead h.1 heq), h.2.1⟩, h.2.2⟩⟩
        by_cases hcount : created.count w ≤ spent.count w
        · rw [if_pos hcount]
          by_cases hne : v = w
          · subst hne
            exact ⟨fun hmem => absurd List.mem_cons_self ((ih' _).1 hmem).2.1,
              fun h => absurd hcount (not_le.2 h.2.2)⟩
          · rw [hrest hne, List.mem_cons, or_iff_right hne]
        · rw [if_neg hcount, List.mem_cons, List.mem_cons]
          by_cases hne : v = w
          · subst hne
            exact ⟨fun _ => ⟨Or.inl rfl, hprocessed, not_le.1 hcount⟩, fun _ => Or.inl rfl⟩
          · rw [or_iff_right hne, or_iff_right hne, hrest hne]

end

end SlotMachine.Sync
