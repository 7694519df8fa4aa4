import SlotMachine.Listener.History
import SlotMachine.Listener.RecordStore

/-!
# The followed singletons of the listener

The listener follows the singletons that handles name as their owners and as what
they resolve to.  It finds them in the block that names them, and counts the handle
slots that do.

* `FollowedSingleton`, `SingletonStore` — a record, and the records by launcher id.
* `referencesFromActionLog`, `dereferencedLaunchers` — what a log says of launchers.
* `discoverReference`, `trackSlotReferenceChanges`, `onRegistryTransition` — a log is
  processed.
* `onBlock`, `cleanupFinalized` — so is a block.
* `rollbackSingletons` — a reorganisation.

Parsing spends is left to a driver.
-/

namespace SlotMachine.Listener

open Retention

/-- `u32::MAX`. -/
def u32Max : ℕ := 2 ^ 32 - 1

/-- `saturating_add` of `u32`. -/
def saturatingAdd (a b : ℕ) : ℕ := min (a + b) u32Max

/-! ## Records -/

/-- `Coin`. -/
structure Coin where
  parentCoinInfo : Bytes
  puzzleHash : Bytes
  amount : ℕ
  deriving DecidableEq

/-- `coin_id`. -/
def Coin.coinId (coin : Coin) : Bytes :=
  Sha256.hash (coin.parentCoinInfo ++ coin.puzzleHash ++ intToBytes coin.amount)

/-- `ParsedNftState`. -/
structure ParsedNftState where
  metadataTreehash : Bytes
  metadataUpdaterPuzzleHash : Bytes
  currentOwner : Option Bytes
  royaltyPuzzleHash : Bytes
  royaltyBasisPoints : ℕ
  p2PuzzleHash : Bytes
  metadataClvm : Option Bytes
  deriving DecidableEq

/-- `FollowRecordStatus`. -/
inductive FollowRecordStatus where
  | incomplete
  | mismatch
  | active
  deriving DecidableEq

/-- `StoredSingletonState`. -/
structure StoredSingletonState where
  launcherId : Bytes
  parentCoinId : Bytes
  amount : ℕ
  innerPuzzleHash : Bytes
  confirmationHeight : ℕ
  melted : Bool
  meltHeight : Option ℕ
  nft : Option ParsedNftState
  coinId : Bytes
  deriving DecidableEq

/-- `FollowedSingleton`, with its current state and its history. -/
structure FollowedSingleton extends Retained StoredSingletonState where
  launcherId : Bytes
  expectedFullPuzzleHash : Bytes
  expectedInnerPuzzleHash : Bytes
  discoveryHeight : ℕ
  status : FollowRecordStatus
  /-- The number of handle slots that name this launcher. -/
  referenceCount : ℕ
  /-- When the count last dropped to zero. -/
  dereferenceHeight : Option ℕ

/-- `push_replacement`. -/
def pushReplacement (record : FollowedSingleton) (newState : StoredSingletonState) (peak : ℕ) :
    FollowedSingleton :=
  { record with
    toRetained := record.push StoredSingletonState.confirmationHeight retentionWindow newState peak }

/-- `rollback_to_before`. -/
def rollbackToBefore (record : FollowedSingleton) (fromHeight : ℕ) : FollowedSingleton :=
  { record with
    toRetained := record.rollback StoredSingletonState.confirmationHeight fromHeight }

/-- One more slot names the launcher. -/
def FollowedSingleton.bumped (record : FollowedSingleton) : FollowedSingleton :=
  { record with
    referenceCount := saturatingAdd record.referenceCount 1
    dereferenceHeight := none }

/-- One slot less names the launcher. -/
def FollowedSingleton.dropped (record : FollowedSingleton) (atHeight : ℕ) : FollowedSingleton :=
  { record with
    referenceCount := record.referenceCount - 1
    dereferenceHeight :=
      if record.referenceCount - 1 = 0 then some atHeight else record.dereferenceHeight }

/-- `SingletonStore`: the records by launcher id. -/
abbrev SingletonStore := Bytes → Option FollowedSingleton

namespace SingletonStore

/-- `upsert`. -/
def upsert (store : SingletonStore) (record : FollowedSingleton) : SingletonStore :=
  Function.update store record.launcherId (some record)

/-- `bump_reference`. -/
def bumpReference (store : SingletonStore) (launcherId : Bytes) : SingletonStore :=
  Function.update store launcherId ((store launcherId).map FollowedSingleton.bumped)

/-- `drop_reference`. -/
def dropReference (store : SingletonStore) (launcherId : Bytes) (atHeight : ℕ) : SingletonStore :=
  Function.update store launcherId ((store launcherId).map fun record => record.dropped atHeight)

end SingletonStore

/-! ## Parsing spends -/

/-- `DiscoveredSingleton`. -/
structure DiscoveredSingleton where
  coin : Coin
  innerPuzzleHash : Bytes
  melted : Bool
  nft : Option ParsedNftState

/-- `DiscoveryResult`. -/
inductive DiscoveryResult where
  | incomplete
  | found (singleton : DiscoveredSingleton)
  | mismatch

/-- `FollowSpendResult`. -/
inductive FollowSpendResult where
  | next (singleton : DiscoveredSingleton)
  | melted (lastCoin : Coin) (innerPuzzleHash : Bytes) (nft : Option ParsedNftState)

/-- What the driver finds in the spend of a coin. -/
structure Driver (Spend : Type) where
  /-- `coin_id`. -/
  coinId : Coin → Bytes
  /-- The coin that is spent. -/
  coin : Spend → Coin
  /-- `try_match_spend`, for a launcher id and its expected puzzle hashes. -/
  tryMatchSpend : Spend → Bytes → Bytes → Bytes → Except String (Option DiscoveredSingleton)
  /-- `follow_singleton_spend`. -/
  followSingletonSpend : Spend → Bytes → Except String FollowSpendResult

/-- `SingletonReference`. -/
structure SingletonReference where
  launcherId : Bytes
  expectedFullPuzzleHash : Bytes
  expectedInnerPuzzleHash : Bytes
  deriving DecidableEq

section

variable {Spend : Type} (D : Driver Spend)

/-- `StoredSingletonState::from_coin`. -/
def Driver.fromCoin (launcherId : Bytes) (coin : Coin) (innerPuzzleHash : Bytes)
    (confirmationHeight : ℕ) (melted : Bool) (meltHeight : Option ℕ)
    (nft : Option ParsedNftState) : StoredSingletonState where
  launcherId := launcherId
  parentCoinId := coin.parentCoinInfo
  amount := coin.amount
  innerPuzzleHash := innerPuzzleHash
  confirmationHeight := confirmationHeight
  melted := melted
  meltHeight := meltHeight
  nft := nft
  coinId := D.coinId coin

/-- The state of a singleton that was found in a block. -/
def Driver.fromDiscovered (launcherId : Bytes) (found : DiscoveredSingleton) (height : ℕ) :
    StoredSingletonState :=
  D.fromCoin launcherId found.coin found.innerPuzzleHash height found.melted
    (if found.melted then some height else none) found.nft

/-- `discover_singleton_in_block`. -/
def discoverSingletonInBlock (spends : List Spend) (reference : SingletonReference) :
    Except String DiscoveryResult := do
  let results ← spends.mapM fun spend => D.tryMatchSpend spend reference.launcherId
    reference.expectedFullPuzzleHash reference.expectedInnerPuzzleHash
  match results.filterMap id with
  | [] => return .incomplete
  | [found] => return .found found
  | _ => return .mismatch

end

/-! ## What a log says of launchers -/

/-- `refs_from_transition`. -/
def refsFromTransition (spent created : List HandleSlotValue) (ownerLauncher resolvedLauncher :
    Bytes) (puzzles : ApprovalPuzzles) : List SingletonReference :=
  let previously := spent.flatMap fun s => [s.ownerLauncherId, s.resolvedLauncherId]
  let newlyOwner := created.any (fun c => c.ownerLauncherId == ownerLauncher)
    && !previously.contains ownerLauncher
  let newlyResolved := created.any (fun c => c.resolvedLauncherId == resolvedLauncher)
    && !previously.contains resolvedLauncher
  (if newlyOwner then
    [⟨ownerLauncher, puzzles.ownerFullPuzzleHash, puzzles.ownerInnerPuzzleHash⟩] else [])
  -- if the two are one, the reference is already recorded
  ++ if ownerLauncher ≠ resolvedLauncher ∧ newlyResolved then
      puzzles.resolvedFullPuzzleHash.toList.map fun full =>
        ⟨resolvedLauncher, full, puzzles.resolvedInnerPuzzleHash⟩
    else []

/-- `references_from_action_log`. -/
def referencesFromActionLog : ActionLog → List SingletonReference
  | .register e => refsFromTransition [e.spentLeftSlot, e.spentRightSlot]
      [e.createdLeftSlot, e.createdHandleSlot, e.createdRightSlot]
      e.createdHandleSlot.ownerLauncherId e.createdHandleSlot.resolvedLauncherId e.puzzles
  | .expire e => refsFromTransition [e.spentSlot] [e.createdSlot]
      e.createdSlot.ownerLauncherId e.createdSlot.resolvedLauncherId e.puzzles
  | .executeUpdate e => refsFromTransition [e.spentHandleSlot] [e.createdSlot]
      e.createdSlot.ownerLauncherId e.createdSlot.resolvedLauncherId e.puzzles
  | _ => []

/-- `dereferenced_launchers`. -/
def dereferencedLaunchers (spent created : HandleSlotValue) : List Bytes :=
  let still := fun id => decide (id = created.ownerLauncherId ∨ id = created.resolvedLauncherId)
  (if !still spent.ownerLauncherId then [spent.ownerLauncherId] else [])
  ++ if spent.resolvedLauncherId ≠ spent.ownerLauncherId ∧ !still spent.resolvedLauncherId then
      [spent.resolvedLauncherId] else []

/-! ## The indexer -/

/-- The store after a computation, and its error if it has failed. -/
abbrev Outcome := SingletonStore × Option String

/-- Go through a list; the first error ends it, and what was stored stays. -/
def forEach {α : Type} (f : SingletonStore → α → Outcome) : SingletonStore → List α → Outcome
  | store, [] => (store, none)
  | store, a :: as =>
      match f store a with
      | (store', none) => forEach f store' as
      | (store', some e) => (store', some e)

section

variable {Spend : Type} (D : Driver Spend)

/-- The record of a reference that was looked for in a block. -/
def discoveredRecord (existing : Option FollowedSingleton) (height : ℕ)
    (reference : SingletonReference) (result : DiscoveryResult) : FollowedSingleton where
  launcherId := reference.launcherId
  expectedFullPuzzleHash := reference.expectedFullPuzzleHash
  expectedInnerPuzzleHash := reference.expectedInnerPuzzleHash
  discoveryHeight := height
  status := match result with
    | .incomplete => .incomplete
    | .mismatch => .mismatch
    | .found _ => .active
  current := match result with
    | .found found => some (D.fromDiscovered reference.launcherId found height)
    | _ => none
  history := (existing.map fun record => record.history).getD []
  referenceCount := (existing.map fun record => max record.referenceCount 1).getD 1
  dereferenceHeight := none

/-- The record is followed: a new reference to it is counted. -/
def FollowedSingleton.Followed (record : FollowedSingleton) : Prop :=
  record.status = .active ∧ record.current.isSome

instance (record : FollowedSingleton) : Decidable record.Followed := by
  unfold FollowedSingleton.Followed
  infer_instance

/-- `discover_reference`. -/
def discoverReference (height : ℕ) (blockSpends : List Spend) (store : SingletonStore)
    (reference : SingletonReference) : Outcome :=
  let existing := store reference.launcherId
  if ∃ record, existing = some record ∧ record.Followed then
    (store.bumpReference reference.launcherId, none)
  else
    match discoverSingletonInBlock D blockSpends reference with
    | .error e => (store, some e)
    | .ok result => (store.upsert (discoveredRecord D existing height reference result), none)

/-- A launcher that a slot names again. -/
def rereference (store : SingletonStore) (launcher : Bytes) : SingletonStore :=
  match store launcher with
  | none => store
  | some record =>
      if record.referenceCount = 0 ∨ record.dereferenceHeight.isSome then
        store.bumpReference launcher
      else store

/-- `track_slot_reference_changes`, for a slot and the one in its place. -/
def trackReplacement (height : ℕ) (store : SingletonStore)
    (replacement : HandleSlotValue × HandleSlotValue) : SingletonStore :=
  let dropped := (dereferencedLaunchers replacement.1 replacement.2).foldl
    (fun store launcher => store.dropReference launcher height) store
  [replacement.2.ownerLauncherId, replacement.2.resolvedLauncherId].foldl rereference dropped

/-- `track_slot_reference_changes`.  A new handle replaces neither of its neighbours. -/
def trackSlotReferenceChanges (height : ℕ) (store : SingletonStore) (log : ActionLog) :
    SingletonStore :=
  log.replacements.foldl (trackReplacement height) store

/-- One log of `on_registry_transition`. -/
def onActionLog (height : ℕ) (blockSpends : List Spend) (store : SingletonStore)
    (log : ActionLog) : Outcome :=
  match forEach (discoverReference D height blockSpends) store (referencesFromActionLog log) with
  | (store', none) => (trackSlotReferenceChanges height store' log, none)
  | (store', some e) => (store', some e)

/-- `on_registry_transition`. -/
def onRegistryTransition (height : ℕ) (blockSpends : List Spend) (store : SingletonStore)
    (logs : List ActionLog) : Outcome :=
  forEach (onActionLog D height blockSpends) store logs

end

/-! ## Blocks -/

section

variable {Spend : Type} (D : Driver Spend)

/-- A record whose discovery is retried. -/
def retryDiscovery (height : ℕ) (blockSpends : List Spend) (record : FollowedSingleton) :
    Except String FollowedSingleton := do
  match ← discoverSingletonInBlock D blockSpends
    ⟨record.launcherId, record.expectedFullPuzzleHash, record.expectedInnerPuzzleHash⟩ with
  | .found found =>
      return { record with
        status := .active
        current := some (D.fromDiscovered record.launcherId found height) }
  | .mismatch => return { record with status := .mismatch }
  | .incomplete => return record

/-- The state of a singleton after a spend. -/
def stateAfterSpend (launcherId : Bytes) (height : ℕ) : FollowSpendResult → StoredSingletonState
  | .next next => D.fromCoin launcherId next.coin next.innerPuzzleHash height false none next.nft
  | .melted lastCoin innerPuzzleHash nft =>
      D.fromCoin launcherId lastCoin innerPuzzleHash height true (some height) nft

/-- What a block does to a record. -/
def stepRecord (height : ℕ) (blockSpends : List Spend) (launcherId : Bytes)
    (record : FollowedSingleton) : Except String FollowedSingleton :=
  match record.status, record.current with
  | .incomplete, _ => retryDiscovery D height blockSpends record
  | .active, some current =>
      if current.melted then
        .ok record
      else
        match blockSpends.find? fun s => D.coinId (D.coin s) == current.coinId with
        | none => .ok record
        | some spend => do
            let result ← D.followSingletonSpend spend launcherId
            return pushReplacement record (stateAfterSpend D launcherId height result) height
  | _, _ => .ok record

/-- One launcher of `on_block`. -/
def stepLauncher (height : ℕ) (blockSpends : List Spend) (store : SingletonStore)
    (launcherId : Bytes) : Outcome :=
  match store launcherId with
  | none => (store, none)
  | some record =>
      match stepRecord D height blockSpends launcherId record with
      | .ok record' => (store.upsert record', none)
      | .error e => (store, some e)

/-- The record is removed at the peak. -/
def FollowedSingleton.Finalized (peak : ℕ) (record : FollowedSingleton) : Prop :=
  record.referenceCount = 0 ∧ ∃ d ∈ record.dereferenceHeight, saturatingAdd d 32 ≤ peak

instance (peak : ℕ) (record : FollowedSingleton) : Decidable (record.Finalized peak) :=
  inferInstanceAs (Decidable (_ ∧ _))

/-- `cleanup_finalized`. -/
def cleanupFinalized (peak : ℕ) (store : SingletonStore) : SingletonStore := fun launcherId =>
  (store launcherId).filter fun record => decide ¬record.Finalized peak

/-- `on_block`; the launchers come in the order of the store's keys. -/
def onBlock (ids : List Bytes) (height : ℕ) (blockSpends : List Spend) (store : SingletonStore) :
    Outcome :=
  match forEach (stepLauncher D height blockSpends) store ids with
  | (store', none) => (cleanupFinalized height store', none)
  | (store', some e) => (store', some e)

end

/-! ## Reorganisations -/

/-- What `rollback` does to a record. -/
def rollbackRecord (fromHeight : ℕ) (record : FollowedSingleton) : Option FollowedSingleton :=
  if fromHeight ≤ record.discoveryHeight then none
  else if ∃ d ∈ record.dereferenceHeight, fromHeight ≤ d then
    some { rollbackToBefore record fromHeight with
      dereferenceHeight := none
      referenceCount := if record.referenceCount = 0 then 1 else record.referenceCount }
  else some (rollbackToBefore record fromHeight)

/-- `rollback`, of the singletons. -/
def rollbackSingletons (fromHeight : ℕ) (store : SingletonStore) : SingletonStore :=
  fun launcherId => (store launcherId).bind (rollbackRecord fromHeight)

/-! ## A driver, as an example -/

/-- The spend of a singleton, with the singleton it creates. -/
structure SingletonSpend where
  coin : Coin
  launcherId : Bytes
  child : DiscoveredSingleton

/-- A driver that is given spends which are parsed already. -/
def parsedDriver : Driver SingletonSpend where
  coinId c := Sha256.hash (c.parentCoinInfo ++ c.puzzleHash ++ intToBytes c.amount)
  coin := SingletonSpend.coin
  tryMatchSpend spend launcherId expectedFullPuzzleHash _ :=
    .ok (if spend.coin.puzzleHash = expectedFullPuzzleHash ∧ spend.launcherId = launcherId then
      some spend.child else none)
  followSingletonSpend spend _ :=
    .ok (if spend.child.melted then
      .melted spend.child.coin spend.child.innerPuzzleHash spend.child.nft else .next spend.child)

end SlotMachine.Listener
