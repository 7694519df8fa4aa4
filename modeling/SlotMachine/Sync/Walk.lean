import SlotMachine.Sync.Database

/-!
# The walk to the tip of a registry

`sync_xchandles_detailed` and `sync_catalog` are one loop: they take up the
registry at the last coin they saved, or at the launcher, and follow it spend by
spend to the coin that is not spent.  What differs is a `Protocol`.  Each step of
the loop asks the node once or runs one statement, so a process that stops between
two steps leaves the database as it is there.

* `Node` — what the node answers.
* `Protocol` — what a kind of registry brings: the driver, and what is stored.
* `Stage`, `step` — the states of a sync, and its next step.
* `Chain`, `Serves` — the spends of a registry, and a node that knows them.
* `Reaches` — what any number of runs leads to, interrupted anywhere, while the
  chain grows.
-/

namespace SlotMachine.Sync

/-! ## Node and driver -/

/-- A registry: its coin, its inner puzzle and its constants. -/
structure RegistryCoin where
  coin : Coin
  innerPuzzleHash : Bytes
  constants : RegistryConstants
  deriving DecidableEq

/-- The lineage proof of the slots that a spend of the coin creates. -/
def RegistryCoin.slotProof (r : RegistryCoin) : LineageProof :=
  ⟨r.coin.parentCoinInfo, r.innerPuzzleHash, r.coin.amount⟩

/-- A spend of a registry, as the driver parses it. -/
structure PendingSpend (V L : Type) where
  registry : RegistryCoin
  created : List V
  spent : List V
  logs : List L
  child : RegistryCoin

/-- The answers of a node.  `Sp` is a spend, with its puzzle and solution. -/
structure Node (Sp : Type) where
  coinRecord : Bytes → Option CoinRecord
  puzzleAndSolution : Bytes → ℕ → Option Sp
  mempoolItem : Bytes → Option Sp

/-- One spent registry coin encountered while walking to the unspent tip. -/
structure SpentTransition (L : Type) where
  height : ℕ
  logs : List L

/-- What a sync returns. -/
structure SyncResult (L : Type) where
  registry : RegistryCoin
  spentTransitions : List (SpentTransition L)

/-- What the sync of a kind of registry brings. -/
structure Protocol (Sp V L : Type) where
  launcherId : Bytes
  /-- The constants, where they are given and need not be saved. -/
  given : Option RegistryConstants
  /-- The registry and its first slots, from the launcher. -/
  launch : Node Sp → Except CliError (RegistryCoin × List (Slot V))
  storeInitial : List (Slot V) → List (Write V)
  fromParentSpend : Sp → RegistryConstants → Except CliError (Option RegistryCoin)
  fromSpend : Sp → RegistryConstants → Except CliError (Option (PendingSpend V L))
  fromMempoolItem : Sp → RegistryConstants → Except CliError (Option RegistryCoin)
  /-- What is written for a spend at a height. -/
  store : PendingSpend V L → ℕ → List (Write V)
  /-- The error for a spend that the driver does not know. -/
  unparsed : String

/-! ## The loop -/

/-- Where a sync is. -/
inductive Stage (V L : Type) where
  | starting
  | writing (writes : List (Write V)) (next : Stage V L)
  /-- The record of the coin is asked for next. -/
  | fetching (registry : RegistryCoin) (skipSave : Bool) (walked : List (SpentTransition L))
  /-- The spend of a coin that is spent is asked for next. -/
  | reading (registry : RegistryCoin) (record : CoinRecord) (walked : List (SpentTransition L))
  | finishing (registry : RegistryCoin) (walked : List (SpentTransition L))
  | done (result : Except CliError (SyncResult L))

/-- `resume_from_saved_tip`. -/
def resumeFromSavedTip (lastUnspent : Option (Bytes × Bytes))
    (constants : Option RegistryConstants) : Option (Bytes × RegistryConstants) :=
  match lastUnspent, constants with
  | some (_, parentCoinId), some constants => some (parentCoinId, constants)
  | _, _ => none

namespace Protocol

variable {Sp V L : Type} (P : Protocol Sp V L) (node : Node Sp)

/-- The constants that a sync starts with. -/
def savedConstants (db : Db V) : Option RegistryConstants :=
  P.given.or (db.getXchandlesConfiguration P.launcherId)

/-- The registry after the spend of its parent. -/
def resume (parentCoinId : Bytes) (constants : RegistryConstants) :
    Except CliError RegistryCoin := do
  let some record := node.coinRecord parentCoinId | .error (.coinNotFound parentCoinId)
  let some spend := node.puzzleAndSolution parentCoinId record.spentBlockIndex
    | .error (.coinNotSpent parentCoinId)
  let some registry ← P.fromParentSpend spend constants
    | .error (.custom "Could not parse latest spent CATalog registry")
  return registry

/-- The constants are saved if they were not. -/
def persistConstants (db : Db V) (registry : RegistryCoin) : List (Write V) :=
  if (P.savedConstants db).isNone then [fun db => db.saveXchandlesConfiguration registry.constants]
  else []

/-- Resume at the saved tip, or start from the launcher coin. -/
def start (db : Db V) : Stage V L :=
  match resumeFromSavedTip (db.getLastUnspentSingletonCoin P.launcherId) (P.savedConstants db) with
  | some (parentCoinId, constants) =>
      match P.resume node parentCoinId constants with
      | .ok registry => .fetching registry false []
      | .error e => .done (.error e)
  | none =>
      match P.launch node with
      | .ok (registry, slots) =>
          .writing (P.storeInitial slots ++ P.persistConstants db registry)
            (.fetching registry true [])
      | .error e => .done (.error e)

/-- Ask for the record of the coin, and save it. -/
def fetch (registry : RegistryCoin) (skipSave : Bool) (walked : List (SpentTransition L)) :
    Stage V L :=
  match node.coinRecord registry.coin.coinId with
  | none => .done (.error (.coinNotFound registry.coin.coinId))
  | some record =>
      .writing (if skipSave then [] else saveSingletonCoin registry.constants.launcherId record)
        (if record.spent then .reading registry record walked else .finishing registry walked)

/-- Ask for the spend of the coin, and store what it did to the slots. -/
def read (registry : RegistryCoin) (record : CoinRecord) (walked : List (SpentTransition L)) :
    Stage V L :=
  match node.puzzleAndSolution registry.coin.coinId record.spentBlockIndex with
  | none => .done (.error (.coinNotSpent registry.coin.coinId))
  | some spend =>
      match P.fromSpend spend registry.constants with
      | .error e => .done (.error e)
      | .ok none => .done (.error (.custom P.unparsed))
      | .ok (some pending) =>
          .writing (P.store pending record.spentBlockIndex)
            (.fetching pending.child false
              (walked ++ [⟨record.spentBlockIndex, pending.logs⟩]))

/-- Look for a spend of the tip that is not in a block yet. -/
def finish (registry : RegistryCoin) (walked : List (SpentTransition L)) :
    Except CliError (SyncResult L) :=
  match node.mempoolItem registry.coin.coinId with
  | none => .ok ⟨registry, walked⟩
  | some item => do
      let found ← P.fromMempoolItem item registry.constants
      return ⟨found.getD registry, walked⟩

/-- The next step of a sync. -/
def step : Db V × Stage V L → Db V × Stage V L
  | (db, .starting) => (db, P.start node db)
  | (db, .writing [] next) => (db, next)
  | (db, .writing (w :: ws) next) => (w db, .writing ws next)
  | (db, .fetching registry skipSave walked) => (db, fetch node registry skipSave walked)
  | (db, .reading registry record walked) => (db, P.read node registry record walked)
  | (db, .finishing registry walked) => (db, .done (P.finish node registry walked))
  | (db, .done result) => (db, .done result)

end Protocol

/-! ## Chains -/

/-- A spend of a registry, and the height of its block. -/
structure Spend (V L : Type) where
  height : ℕ
  pending : PendingSpend V L

/-- The spends of a registry, with the coin and the slots it starts with. -/
structure Chain (V L : Type) where
  first : RegistryCoin
  slots : List (Slot V)
  spends : List (Spend V L)

namespace Chain

variable {V L : Type} (c : Chain V L)

/-- The number of spends. -/
def length : ℕ := c.spends.length

/-- The coin after `n` spends. -/
def coinAt (n : ℕ) : RegistryCoin :=
  ((c.spends.take n).getLast?.map fun s => s.pending.child).getD c.first

/-- The coin that is not spent. -/
def tip : RegistryCoin := c.coinAt c.length

/-- What is parsed of the spends, without the heights. -/
def pendings : List (PendingSpend V L) := c.spends.map Spend.pending

/-- The chain has grown. -/
structure Grows (c c' : Chain V L) : Prop where
  first_eq : c'.first = c.first
  slots_eq : c'.slots = c.slots
  isPrefix : c.spends <+: c'.spends

/-- The spends are still there, at whatever heights. -/
structure Continues (c c' : Chain V L) : Prop where
  first_eq : c'.first = c.first
  slots_eq : c'.slots = c.slots
  isPrefix : c.pendings <+: c'.pendings

/-- A chain of coins: each spend is one of the coin before it. -/
structure Linked (launcherId : Bytes) : Prop where
  launcherId_eq : c.first.constants.launcherId = launcherId
  registry_eq : ∀ n (h : n < c.spends.length), c.spends[n].pending.registry = c.coinAt n
  constants_eq : ∀ n ≤ c.length, (c.coinAt n).constants = c.first.constants
  parent_eq : ∀ n < c.length, (c.coinAt (n + 1)).coin.parentCoinInfo = (c.coinAt n).coin.coinId
  coinId_inj : ∀ m ≤ c.length, ∀ n ≤ c.length,
    (c.coinAt m).coin.coinId = (c.coinAt n).coin.coinId → m = n

end Chain

/-- The node knows the registry up to its tip, and the driver can read it. -/
structure Serves {Sp V L : Type} (P : Protocol Sp V L) (node : Node Sp) (c : Chain V L) : Prop where
  launch_eq : P.launch node = .ok (c.first, c.slots)
  spent : ∀ n (h : n < c.spends.length), ∃ record spend,
    node.coinRecord (c.coinAt n).coin.coinId = some record ∧ record.coin = (c.coinAt n).coin ∧
    record.spent = true ∧ record.spentBlockIndex = c.spends[n].height ∧
    0 < record.confirmedBlockIndex ∧ 0 < c.spends[n].height ∧
    node.puzzleAndSolution (c.coinAt n).coin.coinId c.spends[n].height = some spend ∧
    P.fromSpend spend c.first.constants = .ok (some c.spends[n].pending) ∧
    P.fromParentSpend spend c.first.constants = .ok (some (c.coinAt (n + 1)))
  tip : ∃ record, node.coinRecord c.tip.coin.coinId = some record ∧ record.coin = c.tip.coin ∧
    record.spent = false ∧ record.spentBlockIndex = 0 ∧ 0 < record.confirmedBlockIndex
  mempool : ∀ item, node.mempoolItem c.tip.coin.coinId = some item →
    ∃ found, P.fromMempoolItem item c.first.constants = .ok found

/-- What runs of a sync lead to.  Every step asks the node once, about the chain
as it is then.  A run stops where it is when an answer fails or the process does,
and the next one starts from the database. -/
inductive Reaches {Sp V L : Type} (P : Protocol Sp V L) (Valid : Chain V L → Prop) :
    Chain V L → Db V × Stage V L → Prop where
  | init {c : Chain V L} : Valid c → Reaches P Valid c (.empty, .starting)
  | step {c c' : Chain V L} {s : Db V × Stage V L} {node : Node Sp} : Reaches P Valid c s →
      Valid c' → c.Grows c' → Serves P node c' → Reaches P Valid c' (P.step node s)
  | restart {c : Chain V L} {db : Db V} {stage : Stage V L} : Reaches P Valid c (db, stage) →
      Reaches P Valid c (db, .starting)

end SlotMachine.Sync
