import SlotMachine.Clvm.Curry
import SlotMachine.Listener.BlockFollow

/-!
# What a spend tells of a singleton

The driver parses the spend of a singleton.  The child of an NFT is parsed; of another
child only the puzzle hash is known, and what is inside it is a guess.

* `tryMatchSpend`, `followSingletonSpend` — the driver (`xchandles/listener/discovery.rs`).
* `plainChild` — the child that a guess is made for.
* `Consistent` — a stored state tells its coin.
* `states_consistent` — **every stored state does, as long as the guesses are right**.
-/

namespace SlotMachine.Listener

open Retention

/-- `CoinSpend`, with its programs serialized. -/
structure CoinSpend where
  coin : Coin
  puzzleReveal : Bytes
  solution : Bytes
  deriving DecidableEq

/-! ## The libraries -/

/-- `SingletonLayer`. -/
structure SingletonLayer where
  launcherId : Bytes
  innerPuzzle : Clvm

/-- `NftInfo`. -/
structure NftInfo where
  metadata : Clvm
  metadataUpdaterPuzzleHash : Bytes
  currentOwner : Option Bytes
  royaltyPuzzleHash : Bytes
  royaltyBasisPoints : ℕ
  p2PuzzleHash : Bytes
  innerPuzzleHash : Bytes

/-- `Nft`. -/
structure Nft where
  coin : Coin
  info : NftInfo

/-- `CreateCoin`. -/
structure CreateCoin where
  puzzleHash : Bytes
  amount : ℕ

/-- `Condition`, as far as the driver reads it. -/
inductive OutputCondition where
  | createCoin (cc : CreateCoin)
  | other

/-- What the driver uses of its libraries; an error is its text. -/
structure Sdk where
  nodeFromBytes : Bytes → Except String Clvm
  nodeToBytes : Clvm → Except String Bytes
  /-- `SingletonLayer::parse_puzzle`. -/
  parsePuzzle : Clvm → Except String (Option SingletonLayer)
  /-- `Nft::parse_child`. -/
  parseChild : Coin → Clvm → Clvm → Except String (Option Nft)
  /-- `NftInfo::parse`. -/
  parseInfo : Clvm → Except String (Option NftInfo)
  runPuzzle : Clvm → Clvm → Except String Clvm
  /-- `Vec::<Condition>::from_clvm`. -/
  conditions : Clvm → Except String (List OutputCondition)
  /-- `SingletonArgs::curry_tree_hash`. -/
  curryTreeHash : Bytes → Bytes → Bytes
  /-- `DriverError::Custom`. -/
  custom : String → String

/-- **The parser of NFTs is right**: the child it returns is a singleton of its parent's
launcher, around the inner puzzle it returns. -/
def Sdk.Lawful (S : Sdk) : Prop :=
  ∀ {coin puzzle solution singleton nft}, S.parsePuzzle puzzle = .ok (some singleton) →
    S.parseChild coin puzzle solution = .ok (some nft) →
    nft.coin.puzzleHash = S.curryTreeHash singleton.launcherId nft.info.innerPuzzleHash

/-! ## The driver -/

section

variable (S : Sdk)

/-- `node_from_program`. -/
def Sdk.nodeFromProgram (program : Bytes) : Except String Clvm :=
  (S.nodeFromBytes program).mapError S.custom

/-- `ParsedNftState::from_nft_info`. -/
def Sdk.fromNftInfo (info : NftInfo) : Except String ParsedNftState := do
  let metadataClvm ← (S.nodeToBytes info.metadata).mapError S.custom
  return {
    metadataTreehash := info.metadata.treeHash256
    metadataUpdaterPuzzleHash := info.metadataUpdaterPuzzleHash
    currentOwner := info.currentOwner
    royaltyPuzzleHash := info.royaltyPuzzleHash
    royaltyBasisPoints := info.royaltyBasisPoints
    p2PuzzleHash := info.p2PuzzleHash
    metadataClvm := some metadataClvm }

/-- What is known of the NFT in a puzzle, if it is one. -/
def Sdk.nftOf (puzzle : Clvm) : Except String (Option ParsedNftState) := do
  match ← S.parseInfo puzzle with
  | none => return none
  | some info => return some (← S.fromNftInfo info)

/-- The coins with an odd amount that are created. -/
def oddChildren (conditions : List OutputCondition) : List CreateCoin :=
  conditions.filterMap fun
    | .createCoin cc => if cc.amount % 2 = 1 then some cc else none
    | .other => none

/-- The coin that a spend creates. -/
def CoinSpend.child (spend : CoinSpend) (cc : CreateCoin) : Coin :=
  ⟨spend.coin.coinId, cc.puzzleHash, cc.amount⟩

/-- The inner puzzle hash of a child that was looked for: the expected one, that of its
parent if only that fits, and the expected one again. -/
def Sdk.guess (launcherId expectedInnerPuzzleHash parentInner puzzleHash : Bytes) : Bytes :=
  if S.curryTreeHash launcherId expectedInnerPuzzleHash = puzzleHash then expectedInnerPuzzleHash
  else if S.curryTreeHash launcherId parentInner = puzzleHash then parentInner
  else expectedInnerPuzzleHash

/-- `try_match_spend`. -/
def Sdk.tryMatchSpend (spend : CoinSpend) (launcherId expectedFullPuzzleHash
    expectedInnerPuzzleHash : Bytes) : Except String (Option DiscoveredSingleton) :=
  if spend.coin.puzzleHash ≠ expectedFullPuzzleHash then return none
  else do
    let puzzle ← S.nodeFromProgram spend.puzzleReveal
    match ← S.parsePuzzle puzzle with
    | none => return none
    | some singleton =>
        if singleton.launcherId ≠ launcherId then return none
        else
          let solution ← S.nodeFromProgram spend.solution
          match ← S.parseChild spend.coin puzzle solution with
          | some childNft =>
              let nft ← S.fromNftInfo childNft.info
              return some ⟨childNft.coin, childNft.info.innerPuzzleHash, false, some nft⟩
          | none =>
              let output ← S.runPuzzle puzzle solution
              let conditions ← S.conditions output
              match oddChildren conditions with
              | child :: _ =>
                  return some ⟨spend.child child, S.guess launcherId expectedInnerPuzzleHash
                    singleton.innerPuzzle.treeHash256 child.puzzleHash, false, none⟩
              | [] =>
                  let nft ← S.nftOf puzzle
                  return some ⟨spend.coin, singleton.innerPuzzle.treeHash256, true, nft⟩

/-- `follow_singleton_spend`.  The child is taken to keep the inner puzzle. -/
def Sdk.followSingletonSpend (spend : CoinSpend) (launcherId : Bytes) :
    Except String FollowSpendResult := do
  let puzzle ← S.nodeFromProgram spend.puzzleReveal
  match ← S.parsePuzzle puzzle with
  | none => throw (S.custom "current singleton spend is not a singleton")
  | some singleton =>
      if singleton.launcherId ≠ launcherId then
        throw (S.custom "singleton spend launcher ID mismatch")
      else
        let solution ← S.nodeFromProgram spend.solution
        match ← S.parseChild spend.coin puzzle solution with
        | some childNft =>
            let nft ← S.fromNftInfo childNft.info
            return .next ⟨childNft.coin, childNft.info.innerPuzzleHash, false, some nft⟩
        | none =>
            let output ← S.runPuzzle puzzle solution
            let conditions ← S.conditions output
            match oddChildren conditions with
            | child :: _ =>
                return .next ⟨spend.child child, singleton.innerPuzzle.treeHash256, false, none⟩
            | [] =>
                let nft ← S.nftOf puzzle
                return .melted spend.coin singleton.innerPuzzle.treeHash256 nft

/-- The driver of the listener. -/
def Sdk.driver : Driver CoinSpend where
  coinId := Coin.coinId
  coin := CoinSpend.coin
  tryMatchSpend := S.tryMatchSpend
  followSingletonSpend := S.followSingletonSpend

/-- The child that a guess is made for, with the singleton that creates it. -/
def Sdk.plainChild (spend : CoinSpend) : Except String (Option (SingletonLayer × Coin)) := do
  let puzzle ← S.nodeFromProgram spend.puzzleReveal
  match ← S.parsePuzzle puzzle with
  | none => return none
  | some singleton =>
      let solution ← S.nodeFromProgram spend.solution
      match ← S.parseChild spend.coin puzzle solution with
      | some _ => return none
      | none =>
          let output ← S.runPuzzle puzzle solution
          let conditions ← S.conditions output
          return (oddChildren conditions).head?.map fun cc => (singleton, spend.child cc)

end

/-! ## What the driver returns -/

section

variable {S : Sdk} {spend : CoinSpend} {launcherId : Bytes} {found : DiscoveredSingleton}

/-- A computation that has a result, step by step. -/
theorem bind_eq_ok {ε α β : Type} {x : Except ε α} {f : α → Except ε β} {b : β} :
    x >>= f = .ok b ↔ ∃ a, x = .ok a ∧ f a = .ok b := by
  cases x with
  | error e => simp [bind, Except.bind]
  | ok a => simp [bind, Except.bind]

theorem plainChild_eq {puzzle solution output : Clvm} {singleton : SingletonLayer}
    {conditions : List OutputCondition} {cc : CreateCoin}
    (hpuzzle : S.nodeFromProgram spend.puzzleReveal = .ok puzzle)
    (hlayer : S.parsePuzzle puzzle = .ok (some singleton))
    (hsolution : S.nodeFromProgram spend.solution = .ok solution)
    (hchild : S.parseChild spend.coin puzzle solution = .ok none)
    (houtput : S.runPuzzle puzzle solution = .ok output)
    (hconditions : S.conditions output = .ok conditions)
    (hodd : (oddChildren conditions).head? = some cc) :
    S.plainChild spend = .ok (some (singleton, spend.child cc)) := by
  unfold Sdk.plainChild
  refine bind_eq_ok.2 ⟨puzzle, hpuzzle, bind_eq_ok.2 ⟨some singleton, hlayer, bind_eq_ok.2
    ⟨solution, hsolution, bind_eq_ok.2 ⟨none, hchild, bind_eq_ok.2 ⟨output, houtput,
      bind_eq_ok.2 ⟨conditions, hconditions, ?_⟩⟩⟩⟩⟩⟩
  rw [hodd]
  rfl

/-- The singleton is the child of an NFT. -/
def Sdk.NftChild (S : Sdk) (spend : CoinSpend) (launcherId : Bytes) (found : DiscoveredSingleton) :
    Prop :=
  ∃ puzzle solution singleton nft, S.parsePuzzle puzzle = .ok (some singleton) ∧
    singleton.launcherId = launcherId ∧ S.parseChild spend.coin puzzle solution = .ok (some nft) ∧
    found.coin = nft.coin ∧ found.innerPuzzleHash = nft.info.innerPuzzleHash

theorem Sdk.NftChild.puzzleHash_eq (hS : S.Lawful) (h : S.NftChild spend launcherId found) :
    found.coin.puzzleHash = S.curryTreeHash launcherId found.innerPuzzleHash := by
  obtain ⟨puzzle, solution, singleton, nft, hparse, rfl, hchild, hcoin, hinner⟩ := h
  rw [hcoin, hinner]
  exact hS hparse hchild

/-- **The next singleton**: the child of an NFT, or a child that is taken to keep the inner
puzzle. -/
theorem followSingletonSpend_next
    (h : S.followSingletonSpend spend launcherId = .ok (.next found)) :
    S.NftChild spend launcherId found ∨ ∃ singleton, singleton.launcherId = launcherId ∧
      S.plainChild spend = .ok (some (singleton, found.coin)) ∧
      found.innerPuzzleHash = singleton.innerPuzzle.treeHash256 := by
  unfold Sdk.followSingletonSpend at h
  obtain ⟨puzzle, hpuzzle, h⟩ := bind_eq_ok.1 h
  obtain ⟨layer, hlayer, h⟩ := bind_eq_ok.1 h
  cases layer with
  | none => cases h
  | some singleton =>
      dsimp only at h
      split at h
      · cases h
      · next hlauncher =>
          have hid := not_not.1 hlauncher
          obtain ⟨solution, hsolution, h⟩ := bind_eq_ok.1 h
          obtain ⟨child, hchild, h⟩ := bind_eq_ok.1 h
          cases child with
          | some childNft =>
              obtain ⟨nft, -, h⟩ := bind_eq_ok.1 h
              cases h
              exact Or.inl ⟨puzzle, solution, singleton, childNft, hlayer, hid, hchild, rfl, rfl⟩
          | none =>
              obtain ⟨output, houtput, h⟩ := bind_eq_ok.1 h
              obtain ⟨conditions, hconditions, h⟩ := bind_eq_ok.1 h
              cases hodd : oddChildren conditions with
              | nil =>
                  rw [hodd] at h
                  obtain ⟨nft, -, h⟩ := bind_eq_ok.1 h
                  cases h
              | cons cc rest =>
                  rw [hodd] at h
                  cases h
                  refine Or.inr ⟨singleton, hid, ?_, rfl⟩
                  exact plainChild_eq hpuzzle hlayer hsolution hchild houtput hconditions
                    (by rw [hodd]; rfl)

/-- **The singleton that is looked for**: the child of an NFT, a child whose inner puzzle is
guessed, or the last coin of a singleton. -/
theorem tryMatchSpend_some {full inner : Bytes}
    (h : S.tryMatchSpend spend launcherId full inner = .ok (some found)) :
    spend.coin.puzzleHash = full ∧ (found.melted = true ∨ S.NftChild spend launcherId found ∨
      ∃ singleton, singleton.launcherId = launcherId ∧
        S.plainChild spend = .ok (some (singleton, found.coin)) ∧
        found.innerPuzzleHash = S.guess launcherId inner singleton.innerPuzzle.treeHash256
          found.coin.puzzleHash) := by
  unfold Sdk.tryMatchSpend at h
  split at h
  · cases h
  · next hfull =>
      refine ⟨not_not.1 hfull, ?_⟩
      obtain ⟨puzzle, hpuzzle, h⟩ := bind_eq_ok.1 h
      obtain ⟨layer, hlayer, h⟩ := bind_eq_ok.1 h
      cases layer with
      | none => cases h
      | some singleton =>
          dsimp only at h
          split at h
          · cases h
          · next hlauncher =>
              have hid := not_not.1 hlauncher
              obtain ⟨solution, hsolution, h⟩ := bind_eq_ok.1 h
              obtain ⟨child, hchild, h⟩ := bind_eq_ok.1 h
              cases child with
              | some childNft =>
                  obtain ⟨nft, -, h⟩ := bind_eq_ok.1 h
                  cases h
                  exact Or.inr (Or.inl
                    ⟨puzzle, solution, singleton, childNft, hlayer, hid, hchild, rfl, rfl⟩)
              | none =>
                  obtain ⟨output, houtput, h⟩ := bind_eq_ok.1 h
                  obtain ⟨conditions, hconditions, h⟩ := bind_eq_ok.1 h
                  cases hodd : oddChildren conditions with
                  | nil =>
                      rw [hodd] at h
                      obtain ⟨nft, -, h⟩ := bind_eq_ok.1 h
                      cases h
                      exact Or.inl rfl
                  | cons cc rest =>
                      rw [hodd] at h
                      cases h
                      refine Or.inr (Or.inr ⟨singleton, hid, ?_, rfl⟩)
                      exact plainChild_eq hpuzzle hlayer hsolution hchild houtput hconditions
                        (by rw [hodd]; rfl)

end

/-! ## Runs of the indexer -/

/-- A step of the indexer. -/
inductive IndexerStep (Spend : Type) where
  | call (c : Call Spend)
  | rollback (fromHeight : ℕ)

/-- The records after a step. -/
def IndexerStep.run {Spend : Type} (D : Driver Spend) (store : SingletonStore) :
    IndexerStep Spend → SingletonStore
  | .call c => c.run D store
  | .rollback fromHeight => rollbackSingletons fromHeight store

/-- The records after some steps, from none. -/
def runSteps {Spend : Type} (D : Driver Spend) (steps : List (IndexerStep Spend)) :
    SingletonStore :=
  steps.foldl (IndexerStep.run D) fun _ => none

section

variable (S : Sdk)

/-- **A stored state tells its coin.** -/
def Sdk.Consistent (s : StoredSingletonState) : Prop :=
  Coin.coinId ⟨s.parentCoinId, S.curryTreeHash s.launcherId s.innerPuzzleHash, s.amount⟩ = s.coinId

/-- The guess for a child that is looked for is right: it has the expected inner puzzle, or
that of its parent. -/
def Sdk.GuessRight (spend : CoinSpend) (reference : SingletonReference) : Prop :=
  spend.coin.puzzleHash = reference.expectedFullPuzzleHash →
    ∀ singleton coin, S.plainChild spend = .ok (some (singleton, coin)) →
      singleton.launcherId = reference.launcherId →
      coin.puzzleHash = S.curryTreeHash reference.launcherId reference.expectedInnerPuzzleHash ∨
      coin.puzzleHash = S.curryTreeHash reference.launcherId singleton.innerPuzzle.treeHash256

/-- The child keeps the inner puzzle. -/
def Sdk.KeepsInner (spend : CoinSpend) (launcherId : Bytes) : Prop :=
  ∀ singleton coin, S.plainChild spend = .ok (some (singleton, coin)) →
    singleton.launcherId = launcherId →
    coin.puzzleHash = S.curryTreeHash launcherId singleton.innerPuzzle.treeHash256

/-- The reference of a record that is looked for again. -/
def FollowedSingleton.reference (record : FollowedSingleton) : SingletonReference :=
  ⟨record.launcherId, record.expectedFullPuzzleHash, record.expectedInnerPuzzleHash⟩

/-- **The guesses of a change are right.** -/
def Mutation.GuessesRight (spends : List CoinSpend) (store : SingletonStore) : Mutation → Prop
  | .discover reference => (¬ ∃ record, store reference.launcherId = some record ∧ record.Followed) →
      ∀ spend ∈ spends, S.GuessRight spend reference
  | .visit launcher => ∀ record ∈ store launcher,
      (record.status = .incomplete → ∀ spend ∈ spends, S.GuessRight spend record.reference) ∧
      (record.status = .active → ∀ s ∈ record.current, s.melted = false →
        ∀ spend ∈ spendOf S.driver spends s, S.KeepsInner spend launcher)
  | _ => True

/-- The guesses of a step are right. -/
def IndexerStep.GuessesRight (store : SingletonStore) : IndexerStep CoinSpend → Prop
  | .call c => Along S.driver c.height c.spends (Mutation.GuessesRight S c.spends) store c.mutations
  | .rollback _ => True

/-- The states of a record are ones of its launcher, and tell their coins. -/
structure Sdk.Tells (launcher : Bytes) (record : FollowedSingleton) : Prop where
  launcherId_eq : record.launcherId = launcher
  states : ∀ s ∈ record.versions, s.launcherId = launcher ∧ (s.melted = false → S.Consistent s)

end

/-! ## New states -/

section

variable {S : Sdk} {launcher : Bytes} {record : FollowedSingleton}

/-- A coin is told by what is inside its puzzle hash. -/
theorem consistent_fromCoin {coin : Coin} {inner : Bytes} {height : ℕ} {melted : Bool}
    {meltHeight : Option ℕ} {nft : Option ParsedNftState}
    (h : coin.puzzleHash = S.curryTreeHash launcher inner) :
    S.Consistent (S.driver.fromCoin launcher coin inner height melted meltHeight nft) := by
  show Coin.coinId ⟨coin.parentCoinInfo, S.curryTreeHash launcher inner, coin.amount⟩ = coin.coinId
  rw [← h]

/-- A right guess is that of the coin. -/
theorem curryTreeHash_guess {expected parent puzzleHash : Bytes}
    (h : puzzleHash = S.curryTreeHash launcher expected ∨
      puzzleHash = S.curryTreeHash launcher parent) :
    puzzleHash = S.curryTreeHash launcher (S.guess launcher expected parent puzzleHash) := by
  unfold Sdk.guess
  split
  · next heq => exact heq.symm
  · next hne =>
      obtain h | h := h
      · exact absurd h.symm hne
      · rw [if_pos h.symm]
        exact h

/-- What a list of computations returns was returned by one of them. -/
theorem exists_of_mem_mapM {ε α β : Type} {f : α → Except ε β} {xs : List α} {ys : List β}
    (h : xs.mapM f = .ok ys) {y : β} (hy : y ∈ ys) : ∃ x ∈ xs, f x = .ok y := by
  induction xs generalizing ys with
  | nil =>
      cases h
      cases hy
  | cons x xs ih =>
      rw [List.mapM_cons] at h
      obtain ⟨first, hfirst, h⟩ := bind_eq_ok.1 h
      obtain ⟨rest, hrest, h⟩ := bind_eq_ok.1 h
      cases h
      obtain rfl | hmem := List.mem_cons.1 hy
      · exact ⟨x, List.mem_cons_self, hfirst⟩
      · obtain ⟨x', hx', heq⟩ := ih hrest hmem
        exact ⟨x', List.mem_cons_of_mem _ hx', heq⟩

/-- What is found in a block was found in one of its spends. -/
theorem exists_tryMatchSpend {Spend : Type} {D : Driver Spend} {spends : List Spend}
    {reference : SingletonReference} {found : DiscoveredSingleton}
    (h : discoverSingletonInBlock D spends reference = .ok (.found found)) :
    ∃ spend ∈ spends, D.tryMatchSpend spend reference.launcherId
      reference.expectedFullPuzzleHash reference.expectedInnerPuzzleHash = .ok (some found) := by
  unfold discoverSingletonInBlock at h
  obtain ⟨results, hresults, h⟩ := bind_eq_ok.1 h
  cases hmatches : results.filterMap id with
  | nil =>
      rw [hmatches] at h
      cases h
  | cons m ms =>
      rw [hmatches] at h
      cases ms with
      | cons m' ms => cases h
      | nil =>
          cases h
          have hmem : found ∈ results.filterMap id := by
            rw [hmatches]
            exact List.mem_singleton_self _
          obtain ⟨o, ho, heq⟩ := List.mem_filterMap.1 hmem
          obtain rfl : o = some found := heq
          exact exists_of_mem_mapM hresults ho

/-- **The state of a singleton that was looked for** tells its coin, if the guess is right. -/
theorem consistent_fromDiscovered (hS : S.Lawful) {spends : List CoinSpend}
    {reference : SingletonReference} {found : DiscoveredSingleton}
    (hguess : ∀ spend ∈ spends, S.GuessRight spend reference)
    (h : discoverSingletonInBlock S.driver spends reference = .ok (.found found)) (height : ℕ)
    (hlive : found.melted = false) :
    S.Consistent (S.driver.fromDiscovered reference.launcherId found height) := by
  obtain ⟨spend, hspend, hmatch⟩ := exists_tryMatchSpend h
  obtain ⟨hfull, hmelted | hnft | ⟨singleton, hid, hchild, hinner⟩⟩ := tryMatchSpend_some hmatch
  · rw [hlive] at hmelted
    cases hmelted
  · exact consistent_fromCoin (hnft.puzzleHash_eq hS)
  · refine consistent_fromCoin ?_
    rw [hinner]
    exact curryTreeHash_guess (hguess spend hspend hfull singleton _ hchild hid)

/-- **The state after a spend** tells its coin, if the child keeps the inner puzzle. -/
theorem consistent_stateAfterSpend (hS : S.Lawful) {spend : CoinSpend}
    (hkeeps : S.KeepsInner spend launcher) {result : FollowSpendResult}
    (h : S.followSingletonSpend spend launcher = .ok result) (height : ℕ)
    (hlive : (stateAfterSpend S.driver launcher height result).melted = false) :
    S.Consistent (stateAfterSpend S.driver launcher height result) := by
  cases result with
  | melted lastCoin inner nft => cases hlive
  | next found =>
      refine consistent_fromCoin ?_
      obtain hnft | ⟨singleton, hid, hchild, hinner⟩ := followSingletonSpend_next h
      · exact hnft.puzzleHash_eq hS
      · rw [hinner]
        exact hkeeps singleton _ hchild hid

end

/-! ## Records -/

section

variable {S : Sdk} {launcher : Bytes} {record : FollowedSingleton} {height : ℕ}
variable {spends : List CoinSpend} {store : SingletonStore}

/-- Changes of the references keep the states. -/
theorem Sdk.Tells.of_versions (h : S.Tells launcher record) {record' : FollowedSingleton}
    (hid : record'.launcherId = record.launcherId)
    (hversions : ∀ s ∈ record'.versions, s ∈ record.versions) : S.Tells launcher record' where
  launcherId_eq := hid.trans h.launcherId_eq
  states := fun s hs => h.states s (hversions s hs)

theorem Sdk.Tells.renamed (h : S.Tells launcher record) : S.Tells launcher record.renamed := by
  unfold FollowedSingleton.renamed
  split
  · exact h.of_versions rfl fun _ hs => hs
  · exact h

/-- A state replaces the current one. -/
theorem Sdk.Tells.replaced (h : S.Tells launcher record) {s : StoredSingletonState}
    (hs : s.launcherId = launcher ∧ (s.melted = false → S.Consistent s))
    {record' : FollowedSingleton} (hid : record'.launcherId = record.launcherId)
    (hversions : ∀ t ∈ record'.versions, t ∈ record.versions ∨ t = s) :
    S.Tells launcher record' where
  launcherId_eq := hid.trans h.launcherId_eq
  states := by
    intro t ht
    obtain ht | rfl := hversions t ht
    · exact h.states t ht
    · exact hs

theorem Sdk.Tells.rolledBack (h : S.Tells launcher record) {fromHeight : ℕ}
    {record' : FollowedSingleton} (hrecord' : rollbackRecord fromHeight record = some record') :
    S.Tells launcher record' := by
  have hversions : ∀ s ∈ (rollbackToBefore record fromHeight).versions, s ∈ record.versions :=
    fun s hs => Retained.mem_of_mem_versions_rollback hs
  unfold rollbackRecord at hrecord'
  split at hrecord'
  · cases hrecord'
  · split at hrecord'
    · cases hrecord'
      exact h.of_versions rfl hversions
    · cases hrecord'
      exact h.of_versions rfl hversions

/-- **A visit keeps the records true**, if its guesses are right. -/
theorem Sdk.Tells.visited (hS : S.Lawful) (hrecord : store launcher = some record)
    (hguess : Mutation.GuessesRight S spends store (.visit launcher))
    (h : S.Tells launcher record) :
    S.Tells launcher (visitRecord S.driver height spends launcher record) := by
  have hright := hguess record hrecord
  unfold visitRecord
  cases hstep : stepRecord S.driver height spends launcher record with
  | error e => exact h
  | ok record' =>
      rcases stepRecord_eq_ok S.driver hstep with rfl | ⟨hstatus, result, hresult, hcase⟩ |
        ⟨hstatus, current, hcurrent, hlive, spend, hspend, result, hfollow, rfl⟩
      · exact h
      · rcases hcase with ⟨found, rfl, rfl⟩ | ⟨-, rfl⟩
        · refine h.replaced (s := S.driver.fromDiscovered record.launcherId found height)
            ⟨h.launcherId_eq, fun hlive => ?_⟩ rfl fun t ht => ?_
          · exact consistent_fromDiscovered hS (hright.1 hstatus) hresult height hlive
          · rcases List.mem_append.1 ht with ht | ht
            · exact Or.inl (List.mem_append_left _ ht)
            · exact Or.inr (List.mem_singleton.1 ht)
        · exact h.of_versions rfl fun _ hs => hs
      · have hkeeps : S.KeepsInner spend launcher :=
          hright.2 hstatus current hcurrent hlive spend hspend
        refine h.replaced (s := stateAfterSpend S.driver launcher height result)
          ⟨by cases result <;> rfl, fun hlive => ?_⟩ rfl
          fun t ht => Retained.mem_of_mem_versions_push ht
        exact consistent_stateAfterSpend hS hkeeps hfollow height hlive

/-- A new record is true, if the guess is right. -/
theorem Sdk.Tells.discovered (hS : S.Lawful) {reference : SingletonReference}
    {o : Option FollowedSingleton} (h : ∀ record ∈ o, S.Tells reference.launcherId record)
    (hguess : ∀ spend ∈ spends, S.GuessRight spend reference) {result : DiscoveryResult}
    (hresult : discoverSingletonInBlock S.driver spends reference = .ok result) :
    S.Tells reference.launcherId (discoveredRecord S.driver o height reference result) where
  launcherId_eq := rfl
  states := by
    intro s hs
    rcases List.mem_append.1 hs with hs | hs
    · cases o with
      | none => cases hs
      | some record => exact (h record rfl).states s (List.mem_append_left _ hs)
    · cases result with
      | incomplete => cases hs
      | mismatch => cases hs
      | found found =>
          rw [List.mem_singleton.1 hs]
          exact ⟨rfl, fun hlive => consistent_fromDiscovered hS hguess hresult height hlive⟩

/-- **A change keeps the records true**, if its guesses are right. -/
theorem tells_run (hS : S.Lawful) (m : Mutation) (hguess : m.GuessesRight S spends store)
    (h : ∀ l, ∀ record ∈ store l, S.Tells l record) :
    ∀ l, ∀ record ∈ (m.run S.driver height spends store).1 l, S.Tells l record := by
  intro l record hrecord
  rw [m.run_apply S.driver fun l r hr => (h l r hr).launcherId_eq] at hrecord
  by_cases hhits : m.Hits l
  · rw [if_pos hhits] at hrecord
    cases m with
    | drop l' =>
        obtain ⟨before, hbefore, rfl⟩ := Option.map_eq_some_iff.1 hrecord
        exact (h l before hbefore).of_versions rfl fun _ hs => hs
    | rename l' =>
        obtain ⟨before, hbefore, rfl⟩ := Option.map_eq_some_iff.1 hrecord
        exact (h l before hbefore).renamed
    | cleanup => exact h l record (Option.mem_filter_iff.1 hrecord).1
    | visit l' =>
        obtain rfl : l = l' := hhits
        obtain ⟨before, hbefore, rfl⟩ := Option.map_eq_some_iff.1 hrecord
        exact (h l before hbefore).visited hS hbefore hguess
    | discover reference =>
        obtain rfl : l = reference.launcherId := hhits
        change record ∈ (if _ then _ else _) at hrecord
        split at hrecord
        · obtain ⟨before, hbefore, rfl⟩ := Option.map_eq_some_iff.1 hrecord
          exact (h _ before hbefore).of_versions rfl fun _ hs => hs
        · next hnot =>
            cases hresult : discoverSingletonInBlock S.driver spends reference with
            | error e =>
                rw [hresult] at hrecord
                exact h _ record hrecord
            | ok result =>
                rw [hresult] at hrecord
                rw [← Option.some.inj hrecord]
                exact Sdk.Tells.discovered hS (h _) (hguess hnot) hresult
  · rw [if_neg hhits] at hrecord
    exact h l record hrecord

/-- **A step keeps the records true**, if its guesses are right. -/
theorem tells_step (hS : S.Lawful) (step : IndexerStep CoinSpend)
    (hguess : step.GuessesRight S store) (h : ∀ l, ∀ record ∈ store l, S.Tells l record) :
    ∀ l, ∀ record ∈ step.run S.driver store l, S.Tells l record := by
  cases step with
  | call c =>
      show ∀ l, ∀ record ∈ c.run S.driver store l, S.Tells l record
      rw [Call.run_eq]
      exact Along.invariant (fun store m hm hstore => tells_run hS m hm hstore) hguess h
  | rollback fromHeight =>
      intro l record hrecord
      obtain ⟨before, hbefore, hrolled⟩ := Option.bind_eq_some_iff.1 hrecord
      exact (h l before hbefore).rolledBack hrolled

end

/-- **Every stored state tells its coin**, in any run whose guesses are right. -/
theorem states_consistent {S : Sdk} (hS : S.Lawful) (steps : List (IndexerStep CoinSpend))
    (hguesses : ∀ past step, past ++ [step] <+: steps →
      step.GuessesRight S (runSteps S.driver past)) :
    ∀ launcher, ∀ record ∈ runSteps S.driver steps launcher, ∀ s ∈ record.versions,
      s.melted = false → S.Consistent s := by
  have htells : ∀ l, ∀ record ∈ runSteps S.driver steps l, S.Tells l record := by
    induction steps using List.reverseRecOn with
    | nil => exact nofun
    | append_singleton past step ih =>
        have hpast := ih fun p s hp => hguesses p s (hp.trans (List.prefix_append past [step]))
        unfold runSteps
        rw [List.foldl_append]
        exact tells_step hS step (hguesses past step (List.prefix_refl _)) hpast
  intro launcher record hrecord s hs
  exact ((htells launcher record hrecord).states s hs).2

/-! ## A singleton that is found and followed, as an example -/

instance (S : Sdk) (s : StoredSingletonState) : Decidable (S.Consistent s) :=
  inferInstanceAs (Decidable (_ = _))

/-- Guesses are right in changes with spends that keep the inner puzzle. -/
theorem Along.of_keepsInner {S : Sdk} {height : ℕ} {spends : List CoinSpend}
    (h : ∀ spend ∈ spends, ∀ launcher, S.KeepsInner spend launcher) (store : SingletonStore)
    (ms : List Mutation) :
    Along S.driver height spends (Mutation.GuessesRight S spends) store ms := by
  have hright : ∀ reference, ∀ spend ∈ spends, S.GuessRight spend reference :=
    fun reference spend hspend _ singleton coin hchild hid =>
      Or.inr (h spend hspend reference.launcherId singleton coin hchild hid)
  induction ms generalizing store with
  | nil => exact trivial
  | cons m ms ih =>
      refine ⟨?_, fun store' _ => ih store'⟩
      cases m with
      | discover reference => exact fun _ => hright reference
      | visit launcher =>
          intro record _
          refine ⟨fun _ => hright record.reference, fun _ s _ _ spend hspend => ?_⟩
          exact h spend (List.mem_of_find?_eq_some hspend) launcher
      | drop launcher => exact trivial
      | rename launcher => exact trivial
      | cleanup => exact trivial

namespace DiscoveryExample

open Xchandles.Example (bytes32)

/-- The puzzle of a singleton around an inner puzzle. -/
def fullPuzzleHash (launcherId innerPuzzleHash : Bytes) : Bytes :=
  HashOracle.singletonHash (bytes32 1) (bytes32 2) launcherId innerPuzzleHash

/-- Libraries for puzzles that are given by a launcher and an inner puzzle, one byte each,
and solutions that are the inner puzzle of the child.  There are no NFTs. -/
def libraries : Sdk where
  nodeFromBytes b := .ok (.atom b)
  nodeToBytes _ := .ok []
  parsePuzzle
    | .atom [launcher, inner] => .ok (some ⟨bytes32 launcher, .atom [inner]⟩)
    | _ => .ok none
  parseChild _ _ _ := .ok none
  parseInfo _ := .ok none
  runPuzzle puzzle solution := .ok (.pair puzzle solution)
  conditions
    | .pair (.atom [launcher, _]) (.atom inner) =>
        .ok [.createCoin ⟨fullPuzzleHash (bytes32 launcher) (Clvm.treeHash256 (.atom inner)), 1⟩]
    | _ => .ok []
  curryTreeHash := fullPuzzleHash
  custom := id

/-- The hash of an inner puzzle. -/
def innerHash (inner : Byte) : Bytes := Clvm.treeHash256 (.atom [inner])

/-- The coin of a singleton after another one. -/
def coinAfter (parent : Bytes) (inner : Byte) : Coin :=
  ⟨parent, fullPuzzleHash (bytes32 20) (innerHash inner), 1⟩

/-- The spend of a coin, whose child has an inner puzzle of its own. -/
def spendAfter (parent : Bytes) (inner childInner : Byte) : CoinSpend :=
  ⟨coinAfter parent inner, [20, inner], [childInner]⟩

/-- A handle is given to the singleton. -/
def given : ActionLog := .executeUpdate
  { spentHandleSlot := ⟨3, bytes32 99, bytes32 0, bytes32 255, 1000, bytes32 40, bytes32 40⟩
    spentUpdateSlot := ⟨bytes32 60, 100, bytes32 99, bytes32 20, bytes32 20⟩
    createdSlot := ⟨4, bytes32 99, bytes32 0, bytes32 255, 1000, bytes32 20, bytes32 20⟩
    puzzles := ⟨fullPuzzleHash (bytes32 20) (innerHash 30), none, innerHash 30, innerHash 30⟩ }

/-- The first coin of the singleton, and the one after it. -/
def eveSpend : CoinSpend := spendAfter (bytes32 50) 30 30

def nextSpend (childInner : Byte) : CoinSpend := spendAfter eveSpend.coin.coinId 30 childInner

/-- The singleton is found, and followed. -/
def steps (childInner : Byte) : List (IndexerStep CoinSpend) :=
  [.call (.transition 100 [eveSpend] [given]), .call (.block 110 [nextSpend childInner] [bytes32 20])]

theorem lawful_libraries : libraries.Lawful := by
  intro coin puzzle solution singleton nft _ h
  cases h

theorem keepsInner_spendAfter (parent : Bytes) (inner : Byte) (launcher : Bytes) :
    libraries.KeepsInner (spendAfter parent inner inner) launcher := by
  intro singleton coin hchild hid
  cases hchild
  rw [← hid]
  rfl

end DiscoveryExample

open DiscoveryExample in
open Xchandles.Example (bytes32) in
/-- A singleton that keeps its inner puzzle. -/
theorem states_consistent_kept : libraries.Lawful ∧
    BlockExample.heightOf (runSteps libraries.driver (steps 30)) (bytes32 20) = some 110 ∧
    ∀ launcher, ∀ record ∈ runSteps libraries.driver (steps 30) launcher, ∀ s ∈ record.versions,
      s.melted = false → libraries.Consistent s := by
  refine ⟨lawful_libraries, by decide +kernel, states_consistent lawful_libraries (steps 30) ?_⟩
  intro past step hprefix
  have hmem : step ∈ steps 30 :=
    hprefix.subset (List.mem_append_right _ (List.mem_singleton_self _))
  obtain rfl | rfl : step = _ ∨ step = _ := by simpa [steps] using hmem
  · refine Along.of_keepsInner (fun spend hspend launcher => ?_) _ _
    obtain rfl := List.mem_singleton.1 hspend
    exact keepsInner_spendAfter _ _ _
  · refine Along.of_keepsInner (fun spend hspend launcher => ?_) _ _
    obtain rfl := List.mem_singleton.1 hspend
    exact keepsInner_spendAfter _ _ _

open DiscoveryExample in
open Xchandles.Example (bytes32) in
/-- **A singleton that changes its inner puzzle**: the stored hash is that of the parent, and
the coin cannot be told from it. -/
theorem states_consistent_fails : ∃ s,
    (runSteps libraries.driver (steps 31) (bytes32 20)).bind (fun record => record.current)
      = some s ∧ s.melted = false ∧ ¬ libraries.Consistent s :=
  ⟨libraries.driver.fromCoin (bytes32 20) (coinAfter (nextSpend 31).coin.coinId 31) (innerHash 30)
    110 false none none, by decide +kernel, rfl, by decide +kernel⟩

end SlotMachine.Listener
