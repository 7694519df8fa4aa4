import SlotMachine.Cli.Outcome
import SlotMachine.Clvm.Curry
import SlotMachine.Ledger.Loop
import SlotMachine.Listener.Cursor
import SlotMachine.Listener.RegistryBatch

/-!
# The check of a deployment

The spends of a registry are walked from its launch on, and the handles that they register
are compared with the rows of a trusted list, one by one.

* `verifyAction` — one registration is compared with its row.
* `verifyBatch`, `verifyRound` — the registrations of a spend, and the spends
  (`xchandles/verify_deployment.rs`).
* `Registered` — a registration is that of a row.
* `ChecksPrefix` — the walk accepts a list only if it is what has been registered.
* `checks_prefix_iff` — **when it does**: no spend that the walk comes to goes on behind the
  last row, and no message is empty.
-/

namespace SlotMachine.Cli.Deployment

open Listener (Coin hexEncode utf8Bytes)
open Loop (Returns Visits)

/-! ## What the walk reads -/

/-- `XchandlesLaunchRecord`. -/
structure XchandlesLaunchRecord where
  handle : String
  recipient : Bytes
  expiration : ℕ
  imageUris : List String
  imageHash : Bytes
  metadataUris : List String
  metadataHash : Bytes
  licenseUris : List String
  licenseHash : Bytes

/-- `HandleNftMetadata`. -/
structure HandleNftMetadata where
  displayName : Option String
  imageUris : List String
  imageHash : Option Bytes
  metadataUris : List String
  metadataHash : Option Bytes
  licenseUris : List String
  licenseHash : Option Bytes

/-- `metadata_for_handle_nft`. -/
def metadataForHandleNft (handleInfo : XchandlesLaunchRecord) : HandleNftMetadata where
  displayName := some ("@" ++ handleInfo.handle)
  imageUris := handleInfo.imageUris
  imageHash := some handleInfo.imageHash
  metadataUris := handleInfo.metadataUris
  metadataHash := some handleInfo.metadataHash
  licenseUris := handleInfo.licenseUris
  licenseHash := some handleInfo.licenseHash

/-- `CoinRecord`, as far as the walk reads it. -/
structure CoinRecord where
  spentBlockIndex : ℕ

/-- `CoinSpend`, with its programs as bytes. -/
structure CoinSpend where
  puzzleReveal : Bytes
  solution : Bytes

/-- The answers of a node.  A call fails, or its answer has what was asked for or not. -/
structure DeploymentNode where
  coinRecordByName : Bytes → Except CliError (Option CoinRecord)
  puzzleAndSolution : Bytes → ℕ → Except CliError (Option CoinSpend)

/-- `XchandlesRegisterActionSolution`, as far as the walk reads it. -/
structure RegisterActionSolution where
  handleHash : Bytes
  ownerLauncherId : Bytes
  resolvedLauncherId : Bytes
  pricingSolution : Clvm

/-- `XchandlesPricingSolution`. -/
structure PricingSolution where
  buyTime : ℕ
  numPeriods : ℕ

/-- What `Nft::parse` finds: the info of an NFT, and its inner spend. -/
structure EveNft where
  royaltyPuzzleHash : Bytes
  royaltyBasisPoints : ℕ
  metadata : Clvm
  innerPuzzle : Clvm
  innerSolution : Clvm

/-- `SendMessage`. -/
structure SendMessage where
  mode : ℕ
  message : Bytes
  data : List Clvm

/-- `CreateCoin`. -/
structure CreateCoin where
  puzzleHash : Bytes
  amount : ℕ
  memos : Option Clvm

/-- `Condition`. -/
inductive Condition where
  | aggSigMe
  | sendMessage (condition : SendMessage)
  | createCoin (condition : CreateCoin)
  | other

/-- What the SDK parses and runs; `R` is its `XchandlesRegistry`. -/
structure DeploymentSdk (R : Type) where
  coin : R → Coin
  /-- `registry.child(registry.pending_spend.latest_state.1)`. -/
  child : R → R
  nodeFromBytes : Bytes → Except CliError Clvm
  alloc : Bytes → Except CliError Clvm
  /-- The inner solution of a `SingletonSolution`. -/
  innerSolution : Clvm → Except CliError Clvm
  /-- `ActionLayer::parse_solution`: the solutions of the action spends. -/
  parseSolution : Clvm → Except CliError (List Clvm)
  registerSolution : Clvm → Except CliError RegisterActionSolution
  pricingSolution : Clvm → Except CliError PricingSolution
  /-- The `singleton_puzzle_hash` of a `LauncherSolution`. -/
  launcherSolution : Clvm → Except CliError Bytes
  parseNft : Coin → (puzzle solution : Clvm) → Except CliError (Option EveNft)
  run : (puzzle solution : Clvm) → Except CliError Clvm
  conditions : Clvm → Except CliError (List Condition)
  metadataTreeHash : HandleNftMetadata → Bytes
  /-- `Address::new(..).encode()`. -/
  encodeAddress : Bytes → Except CliError String
  /-- `XchandlesRegistryReceivedMessagePrefix::RegisterOwner`. -/
  registerOwner : Byte

/-- `REGISTRATION_PERIOD`. -/
def registrationPeriod : ℕ := 31557600

/-- `checked_add` of `u64`. -/
def checkedAdd (a b : ℕ) : Option ℕ := if a + b < 2 ^ 64 then some (a + b) else none

/-- `checked_mul` of `u64`. -/
def checkedMul (a b : ℕ) : Option ℕ := if a * b < 2 ^ 64 then some (a * b) else none

/-! ## One registration -/

/-- What the NFTs have in common, once the first one has been seen. -/
structure NftConstants where
  royaltyPuzzleHash : Option Bytes
  royaltyBasisPoints : Option ℕ
  eveNftTempInnerPh : Option Bytes

/-- How far the walk is: the number of rows that are verified, and the constants. -/
structure Progress where
  handleIndex : ℕ
  constants : NftConstants

/-- Nothing is verified. -/
def Progress.start : Progress := ⟨0, none, none, none⟩

/-- A message with the index of a handle. -/
def indexed (message : String) (handleIndex : ℕ) : CliError :=
  .custom (message ++ toString handleIndex)

/-- The expiration of a registration. -/
def expirationOf (pricing : PricingSolution) (handleIndex : ℕ) : Outcome ℕ := do
  let overflow := indexed "expiration overflow for handle #" handleIndex
  let duration ← .require (checkedMul pricing.numPeriods registrationPeriod) overflow
  .require (checkedAdd pricing.buyTime duration) overflow

/-- A constant, which the first NFT sets.  It is printed then. -/
def deduce {α : Type} [DecidableEq α] (known : Option α) (found : α) (printed : Outcome Unit)
    (mismatch : CliError) : Outcome (Option α) :=
  match known with
  | none => do
      printed
      return some found
  | some k => do
      .check (k = found) mismatch
      return some k

section

variable {R : Type} (sdk : DeploymentSdk R) (node : DeploymentNode)

/-- The spend of a coin. -/
def fetchSpend (coinId : Bytes) (noRecord noSpend : CliError) : Outcome CoinSpend := do
  let answer ← .returned (node.coinRecordByName coinId)
  let record ← .require answer noRecord
  let answer ← .returned (node.puzzleAndSolution coinId record.spentBlockIndex)
  .require answer noSpend

/-- The NFT that a launcher creates, as it is first spent. -/
def eveNft (launcherId : Bytes) : Outcome EveNft := do
  let spend ← fetchSpend node launcherId
    (.custom ("Could not fetch record for launcher coin " ++ hexEncode launcherId))
    (.custom ("Could not fetch coin spend for launcher coin " ++ hexEncode launcherId))
  let solution ← .returned (sdk.alloc spend.solution)
  let singletonPuzzleHash ← .returned (sdk.launcherSolution solution)
  let coin : Coin := ⟨launcherId, singletonPuzzleHash, 1⟩
  let spend ← fetchSpend node coin.coinId
    (.custom ("Could not fetch record for eve nft coin " ++ hexEncode coin.coinId))
    (.custom ("Could not fetch coin spend for eve nft coin " ++ hexEncode coin.coinId))
  let puzzle ← .returned (sdk.alloc spend.puzzleReveal)
  let solution ← .returned (sdk.alloc spend.solution)
  let nft ← .returned (sdk.parseNft coin puzzle solution)
  .require nft (.custom ("Could not parse eve nft coin " ++ hexEncode coin.coinId))

/-- An address is printed. -/
def printAddress (puzzleHash : Bytes) : Outcome Unit := do
  let _ ← .returned (sdk.encodeAddress puzzleHash)
  return ()

/-- What the NFT has in common with those before it. -/
def checkConstants (constants : NftConstants) (nft : EveNft) (handleIndex : ℕ) :
    Outcome NftConstants := do
  let royaltyPuzzleHash ← deduce constants.royaltyPuzzleHash nft.royaltyPuzzleHash
    (printAddress sdk nft.royaltyPuzzleHash)
    (indexed "Royalty puzzle hash mismatch for handle #" handleIndex)
  let royaltyBasisPoints ← deduce constants.royaltyBasisPoints nft.royaltyBasisPoints (return ())
    (indexed "Royalty basis points mismatch for handle #" handleIndex)
  let innerPuzzleHash := nft.innerPuzzle.treeHash256
  let eveNftTempInnerPh ← deduce constants.eveNftTempInnerPh innerPuzzleHash
    (printAddress sdk innerPuzzleHash)
    (indexed "Inner puzzle hash mismatch for handle #" handleIndex)
  return ⟨royaltyPuzzleHash, royaltyBasisPoints, eveNftTempInnerPh⟩

/-- The three conditions that the inner puzzle of an NFT should output. -/
def expectedConditions : List Condition → Option (SendMessage × CreateCoin)
  | [.aggSigMe, .sendMessage sendMessage, .createCoin createCoin] =>
      some (sendMessage, createCoin)
  | _ => none

/-- The message and the coin of an NFT. -/
def p2Output (nft : EveNft) (handleIndex : ℕ) : Outcome (SendMessage × CreateCoin) := do
  let output ← .returned (sdk.run nft.innerPuzzle nft.innerSolution)
  let p2Output ← .returned (sdk.conditions output)
  .check (p2Output.length = 3) (indexed ("P2 output contains " ++ toString p2Output.length
    ++ " conditions, expected 3 for handle #") handleIndex)
  .require (expectedConditions p2Output)
    (indexed "P2 output does not contain the correct conditions for handle #" handleIndex)

/-- The NFT goes to the recipient of the row. -/
def checkRecreation (row : XchandlesLaunchRecord) (createCoin : CreateCoin) (handleIndex : ℕ) :
    Outcome Unit := do
  let memos ← .require createCoin.memos
    (indexed "P2 output does not contain the correct memo for handle #" handleIndex)
  .check (createCoin.puzzleHash = row.recipient ∧ createCoin.amount = 1 ∧
      memos.treeHash256 = (Clvm.ofList [.atom row.recipient]).treeHash256)
    (indexed "P2 output does not contain the correct recreation condition for handle #"
      handleIndex)

/-- The message is one to the registry.  Its first byte is read only if the mode is right. -/
def checkMessage (registry : R) (sendMessage : SendMessage) (handleIndex : ℕ) :
    Outcome Unit := do
  let mismatch := indexed "P2 send message mode mismatch for handle #" handleIndex
  .check (sendMessage.mode = 18) mismatch
  let first ← .index sendMessage.message 0
  .check (first = sdk.registerOwner ∧ sendMessage.data.map Clvm.treeHash256
    = [(Clvm.atom (sdk.coin registry).puzzleHash).treeHash256]) mismatch

variable (rows : List XchandlesLaunchRecord)

/-- A registration is compared with its row, but for the message. -/
def beforeMessage (progress : Progress) (action : Clvm) :
    Outcome (SendMessage × NftConstants) := do
  let solution ← .returned (sdk.registerSolution action)
  let row ← .index rows progress.handleIndex
  .check (solution.handleHash = (Clvm.atom (utf8Bytes row.handle)).treeHash256 ∧
      solution.resolvedLauncherId = solution.ownerLauncherId)
    (indexed "Wrong handle registered at index " progress.handleIndex)
  let pricing ← .returned (sdk.pricingSolution solution.pricingSolution)
  let onChainExpiration ← expirationOf pricing progress.handleIndex
  .check (onChainExpiration = row.expiration) (.custom ("Expiration mismatch for handle #"
    ++ toString progress.handleIndex ++ " (" ++ row.handle ++ "): on-chain "
    ++ toString onChainExpiration ++ " != csv " ++ toString row.expiration))
  let nft ← eveNft sdk node solution.ownerLauncherId
  let constants ← checkConstants sdk progress.constants nft progress.handleIndex
  .check (sdk.metadataTreeHash (metadataForHandleNft row) = nft.metadata.treeHash256)
    (indexed "Metadata hash mismatch for handle #" progress.handleIndex)
  let (sendMessage, createCoin) ← p2Output sdk nft progress.handleIndex
  checkRecreation row createCoin progress.handleIndex
  return (sendMessage, constants)

/-- A registration is compared with its row. -/
def verifyAction (registry : R) (progress : Progress) (action : Clvm) : Outcome Progress := do
  let (sendMessage, constants) ← beforeMessage sdk node rows progress action
  checkMessage sdk registry sendMessage progress.handleIndex
  return ⟨progress.handleIndex + 1, constants⟩

/-! ## The walk -/

/-- The registrations of a spend.  Nothing asks whether there is a row left. -/
def verifyBatch (registry : R) : Progress → List Clvm → Outcome Progress
  | progress, [] => return progress
  | progress, action :: actions => do
      let progress ← verifyAction sdk node rows registry progress action
      verifyBatch registry progress actions

/-- The solutions of the action spends of a registry spend. -/
def actionSpends (solution : Bytes) : Except CliError (List Clvm) := do
  let solution ← sdk.nodeFromBytes solution
  let innerSolution ← sdk.innerSolution solution
  sdk.parseSolution innerSolution

/-- The state of the walk. -/
structure Walk (R : Type) where
  registry : R
  progress : Progress

/-- Behind the loop: all rows have been verified, or not. -/
def finish (handleIndex : ℕ) : Outcome ℕ := do
  .check (rows.length ≤ handleIndex) (.custom ("Only verified " ++ toString handleIndex ++ " of "
    ++ toString rows.length ++ " expected premined handles"))
  return handleIndex

/-- A round of the loop: a spend of the registry. -/
def verifyRound (walk : Walk R) : Walk R ⊕ Outcome ℕ :=
  if walk.progress.handleIndex < rows.length then
    let coinId := (sdk.coin walk.registry).coinId
    match node.coinRecordByName coinId with
    | .error e => .inr (.fail e)
    | .ok none => .inr (.fail (.coinNotFound coinId))
    | .ok (some record) =>
        match node.puzzleAndSolution coinId record.spentBlockIndex with
        | .error e => .inr (.fail e)
        | .ok none => .inr (finish rows walk.progress.handleIndex)
        | .ok (some spend) =>
            match actionSpends sdk spend.solution with
            | .error e => .inr (.fail e)
            | .ok actions =>
                match verifyBatch sdk node rows walk.registry walk.progress actions with
                | .panicked => .inr .panicked
                | .returned (.error e) => .inr (.fail e)
                | .returned (.ok progress) => .inl ⟨sdk.child walk.registry, progress⟩
  else .inr (finish rows walk.progress.handleIndex)

end

/-- The rows that are to be verified, a prefix of all. -/
def handlesToVerify (handlesToLaunch : List XchandlesLaunchRecord) (expectedCount : Option ℕ) :
    Except CliError (List XchandlesLaunchRecord) :=
  let verifyLimit := expectedCount.getD handlesToLaunch.length
  if verifyLimit > handlesToLaunch.length then
    .error (.custom ("--expected-count " ++ toString verifyLimit ++ " exceeds launch CSV length "
      ++ toString handlesToLaunch.length))
  else .ok (handlesToLaunch.take verifyLimit)

/-! ## What it should accept -/

section

variable {R : Type} (sdk : DeploymentSdk R) (node : DeploymentNode)

/-- The action spends of the spend of a registry coin. -/
def BatchOf (registry : R) (actions : List Clvm) : Prop :=
  ∃ record spend, node.coinRecordByName (sdk.coin registry).coinId = .ok (some record) ∧
    node.puzzleAndSolution (sdk.coin registry).coinId record.spentBlockIndex = .ok (some spend) ∧
    actionSpends sdk spend.solution = .ok actions

/-- The action spends on the chain, from a registry coin to a later one. -/
inductive OnChain (registry : R) : List Clvm → R → Prop where
  | launch : OnChain registry [] registry
  | spent {actions batch : List Clvm} {latest : R} : OnChain registry actions latest →
      BatchOf sdk node latest batch → OnChain registry (actions ++ batch) (sdk.child latest)

/-- **A registration is that of a row**: of its handle, with an owner that is what the handle
resolves to and whose NFT goes to the recipient, until the expiration. -/
def Registered (row : XchandlesLaunchRecord) (action : Clvm) : Prop :=
  ∃ solution pricing nft output sendMessage createCoin,
    sdk.registerSolution action = .ok solution ∧
    solution.handleHash = (Clvm.atom (utf8Bytes row.handle)).treeHash256 ∧
    solution.resolvedLauncherId = solution.ownerLauncherId ∧
    sdk.pricingSolution solution.pricingSolution = .ok pricing ∧
    pricing.buyTime + pricing.numPeriods * registrationPeriod = row.expiration ∧
    eveNft sdk node solution.ownerLauncherId = .returned (.ok nft) ∧
    sdk.run nft.innerPuzzle nft.innerSolution = .ok output ∧
    sdk.conditions output
      = .ok [.aggSigMe, .sendMessage sendMessage, .createCoin createCoin] ∧
    createCoin.puzzleHash = row.recipient

/-- The walk of a list from a registry coin on ends so. -/
def Verifies (handlesToLaunch : List XchandlesLaunchRecord) (expectedCount : Option ℕ)
    (registry : R) (outcome : Outcome ℕ) : Prop :=
  match handlesToVerify handlesToLaunch expectedCount with
  | .error e => outcome = .fail e
  | .ok rows => Returns (verifyRound sdk node rows) ⟨registry, .start⟩ outcome

/-- **The walk checks the expected prefix**: it does not panic, and accepts the list only if
the first registrations on the chain are the rows, in order. -/
def ChecksPrefix (handlesToLaunch : List XchandlesLaunchRecord) (expectedCount : Option ℕ)
    (registry : R) : Prop :=
  ∃ result, Verifies sdk node handlesToLaunch expectedCount registry (.returned result) ∧
    ∀ n, result = .ok n → ∃ rows actions latest,
      handlesToVerify handlesToLaunch expectedCount = .ok rows ∧ n = rows.length ∧
      OnChain sdk node registry actions latest ∧
      List.Forall₂ (Registered sdk node) rows (actions.take rows.length)

/-! ## Where the walk comes to -/

variable (rows : List XchandlesLaunchRecord)

/-- Registrations of a spend are those of the next rows. -/
inductive Passed (registry : R) : Progress → List Clvm → Progress → Prop where
  | nil (progress : Progress) : Passed registry progress [] progress
  | cons {progress next last : Progress} {action : Clvm} {actions : List Clvm} :
      verifyAction sdk node rows registry progress action = .returned (.ok next) →
      Passed registry next actions last → Passed registry progress (action :: actions) last

/-- The walk comes to a registry coin, with rows left. -/
inductive Arrives (registry : R) : Walk R → Prop where
  | launch : Arrives registry ⟨registry, .start⟩
  | next {walk : Walk R} {batch : List Clvm} {progress : Progress} : Arrives registry walk →
      walk.progress.handleIndex < rows.length → BatchOf sdk node walk.registry batch →
      Passed sdk node rows walk.registry walk.progress batch progress →
      Arrives registry ⟨sdk.child walk.registry, progress⟩

/-- The walk comes to a registration of a spend. -/
def ComesTo (registry : R) (walk : Walk R) (action : Clvm) : Prop :=
  ∃ progress before after, Arrives sdk node rows registry ⟨walk.registry, progress⟩ ∧
    progress.handleIndex < rows.length ∧
    BatchOf sdk node walk.registry (before ++ action :: after) ∧
    Passed sdk node rows walk.registry progress before walk.progress

/-- **A spend goes on behind the last row**, with what may be a registration. -/
def Overrun (registry : R) : Prop :=
  ∃ walk action, ComesTo sdk node rows registry walk action ∧
    rows.length ≤ walk.progress.handleIndex ∧ ∃ solution, sdk.registerSolution action = .ok solution

/-- **A message of the right mode is empty**, and all else is right. -/
def EmptyMessage (registry : R) : Prop :=
  ∃ walk action sendMessage constants, ComesTo sdk node rows registry walk action ∧
    beforeMessage sdk node rows walk.progress action
      = .returned (.ok (sendMessage, constants)) ∧
    sendMessage.mode = 18 ∧ sendMessage.message = []

end

/-! ## The checks of one registration -/

section

variable {R : Type} {sdk : DeploymentSdk R} {node : DeploymentNode}
variable {rows : List XchandlesLaunchRecord} {registry : R} {progress progress' : Progress}
variable {action : Clvm} {i : ℕ}

@[simp] theorem expirationOf_ne_panicked {pricing : PricingSolution} :
    expirationOf pricing i ≠ .panicked := by
  simp [expirationOf]

theorem expirationOf_eq_ok {pricing : PricingSolution} {expiration : ℕ}
    (h : expirationOf pricing i = .returned (.ok expiration)) :
    pricing.buyTime + pricing.numPeriods * registrationPeriod = expiration := by
  simp only [expirationOf, Outcome.bind_eq_ok, Outcome.require_eq_ok, checkedMul, checkedAdd,
    Option.ite_none_right_eq_some, Option.some.injEq] at h
  obtain ⟨duration, ⟨-, rfl⟩, -, rfl⟩ := h
  rfl

@[simp] theorem deduce_ne_panicked {α : Type} [DecidableEq α] {known : Option α} {found : α}
    {printed : Outcome Unit} {mismatch : CliError} (h : printed ≠ .panicked) :
    deduce known found printed mismatch ≠ .panicked := by
  cases known <;> simp [deduce, h]

@[simp] theorem fetchSpend_ne_panicked {coinId : Bytes} {noRecord noSpend : CliError} :
    fetchSpend node coinId noRecord noSpend ≠ .panicked := by
  simp [fetchSpend]

@[simp] theorem eveNft_ne_panicked {launcherId : Bytes} :
    eveNft sdk node launcherId ≠ .panicked := by
  simp [eveNft]

@[simp] theorem printAddress_ne_panicked {puzzleHash : Bytes} :
    printAddress sdk puzzleHash ≠ .panicked := by
  simp [printAddress]

@[simp] theorem checkConstants_ne_panicked {constants : NftConstants} {nft : EveNft} :
    checkConstants sdk constants nft i ≠ .panicked := by
  simp [checkConstants]

@[simp] theorem p2Output_ne_panicked {nft : EveNft} : p2Output sdk nft i ≠ .panicked := by
  simp [p2Output]

@[simp] theorem checkRecreation_ne_panicked {row : XchandlesLaunchRecord}
    {createCoin : CreateCoin} : checkRecreation row createCoin i ≠ .panicked := by
  simp [checkRecreation]

/-- **The message is read without a look at its length.** -/
theorem checkMessage_eq_panicked {sendMessage : SendMessage} :
    checkMessage sdk registry sendMessage i = .panicked ↔
      sendMessage.mode = 18 ∧ sendMessage.message = [] := by
  simp [checkMessage]

/-- **A row is read without a look at how many there are.** -/
theorem beforeMessage_eq_panicked : beforeMessage sdk node rows progress action = .panicked ↔
    (∃ solution, sdk.registerSolution action = .ok solution) ∧
      rows.length ≤ progress.handleIndex := by
  simp [beforeMessage]

theorem expectedConditions_eq_some {conditions : List Condition} {sendMessage : SendMessage}
    {createCoin : CreateCoin} (h : expectedConditions conditions = some (sendMessage, createCoin)) :
    conditions = [.aggSigMe, .sendMessage sendMessage, .createCoin createCoin] := by
  unfold expectedConditions at h
  split at h
  · cases h
    rfl
  · cases h

theorem p2Output_eq_ok {nft : EveNft} {sendMessage : SendMessage} {createCoin : CreateCoin}
    (h : p2Output sdk nft i = .returned (.ok (sendMessage, createCoin))) :
    ∃ output, sdk.run nft.innerPuzzle nft.innerSolution = .ok output ∧
      sdk.conditions output
        = .ok [.aggSigMe, .sendMessage sendMessage, .createCoin createCoin] := by
  simp only [p2Output, Outcome.bind_eq_ok, Outcome.returned.injEq, Outcome.require_eq_ok] at h
  obtain ⟨output, houtput, conditions, hconditions, -, -, hexpected⟩ := h
  rw [expectedConditions_eq_some hexpected] at hconditions
  exact ⟨output, houtput, hconditions⟩

theorem checkRecreation_eq_ok {row : XchandlesLaunchRecord} {createCoin : CreateCoin} {u : Unit}
    (h : checkRecreation row createCoin i = .returned (.ok u)) :
    createCoin.puzzleHash = row.recipient := by
  simp only [checkRecreation, Outcome.bind_eq_ok, Outcome.check_eq_ok] at h
  obtain ⟨memos, -, hpuzzleHash, -⟩ := h
  exact hpuzzleHash

/-- **What passes the checks is the registration of the row.** -/
theorem beforeMessage_eq_ok {sendMessage : SendMessage} {constants : NftConstants}
    (h : beforeMessage sdk node rows progress action = .returned (.ok (sendMessage, constants))) :
    ∃ row, rows[progress.handleIndex]? = some row ∧ Registered sdk node row action := by
  simp only [beforeMessage, Outcome.bind_eq_ok, Outcome.returned.injEq, Outcome.index_eq_ok,
    Outcome.check_eq_ok, Outcome.pure_eq_ok] at h
  obtain ⟨solution, hsolution, row, hrow, -, ⟨hhandle, howner⟩, pricing, hpricing, expiration,
    hexpiration, -, hsame, nft, hnft, constants', -, -, -, ⟨message, createCoin⟩, houtput, _,
    hrecreation, -⟩ := h
  obtain ⟨output, hrun, hconditions⟩ := p2Output_eq_ok houtput
  exact ⟨row, hrow, solution, pricing, nft, output, message, createCoin, hsolution, hhandle, howner,
    hpricing, (expirationOf_eq_ok hexpiration).trans hsame, hnft, hrun, hconditions,
    checkRecreation_eq_ok hrecreation⟩

/-- **Where a registration makes the walk panic**: there is no row left for it, or its message
has the right mode and is empty. -/
theorem verifyAction_eq_panicked :
    verifyAction sdk node rows registry progress action = .panicked ↔
      ((∃ solution, sdk.registerSolution action = .ok solution) ∧
        rows.length ≤ progress.handleIndex) ∨
      ∃ sendMessage constants, beforeMessage sdk node rows progress action
          = .returned (.ok (sendMessage, constants)) ∧
        sendMessage.mode = 18 ∧ sendMessage.message = [] := by
  simp [verifyAction, beforeMessage_eq_panicked, checkMessage_eq_panicked]

theorem verifyAction_eq_ok
    (h : verifyAction sdk node rows registry progress action = .returned (.ok progress')) :
    progress'.handleIndex = progress.handleIndex + 1 ∧
      ∃ row, rows[progress.handleIndex]? = some row ∧ Registered sdk node row action := by
  simp only [verifyAction, Outcome.bind_eq_ok, Outcome.pure_eq_ok] at h
  obtain ⟨⟨sendMessage, constants⟩, hbefore, -, -, rfl⟩ := h
  exact ⟨rfl, beforeMessage_eq_ok hbefore⟩

/-! ## The registrations of a spend -/

theorem verifyBatch_eq_ok {actions : List Clvm} :
    verifyBatch sdk node rows registry progress actions = .returned (.ok progress') ↔
      Passed sdk node rows registry progress actions progress' := by
  induction actions generalizing progress with
  | nil =>
      simp only [verifyBatch, Outcome.pure_eq_ok]
      constructor
      · rintro rfl
        exact .nil progress
      · rintro ⟨⟩
        rfl
  | cons action actions ih =>
      simp only [verifyBatch, Outcome.bind_eq_ok, ih]
      constructor
      · rintro ⟨next, hnext, hrest⟩
        exact .cons hnext hrest
      · rintro (_ | ⟨hnext, hrest⟩)
        exact ⟨_, hnext, hrest⟩

/-- **A spend makes the walk panic at one of its registrations**, behind some that pass. -/
theorem verifyBatch_eq_panicked {actions : List Clvm} :
    verifyBatch sdk node rows registry progress actions = .panicked ↔
      ∃ before action after last, actions = before ++ action :: after ∧
        Passed sdk node rows registry progress before last ∧
        verifyAction sdk node rows registry last action = .panicked := by
  induction actions generalizing progress with
  | nil =>
      simp only [verifyBatch]
      constructor
      · intro h
        cases h
      · rintro ⟨before, action, after, last, hnil, -⟩
        cases before <;> cases hnil
  | cons first actions ih =>
      simp only [verifyBatch, Outcome.bind_eq_panicked, ih]
      constructor
      · rintro (hfirst | ⟨next, hnext, before, action, after, last, rfl, hpassed, hlast⟩)
        · exact ⟨[], first, actions, progress, rfl, .nil progress, hfirst⟩
        · exact ⟨first :: before, action, after, last, rfl, .cons hnext hpassed, hlast⟩
      · rintro ⟨before, action, after, last, heq, hpassed, hlast⟩
        cases hpassed with
        | nil =>
            obtain ⟨rfl, -⟩ := List.cons.inj heq
            exact Or.inl hlast
        | cons hnext hrest =>
            obtain ⟨rfl, rfl⟩ := List.cons.inj heq
            exact Or.inr ⟨_, hnext, _, action, after, last, rfl, hrest, hlast⟩

/-- No more registrations pass than there are rows. -/
theorem Passed.index_le {actions : List Clvm}
    (h : Passed sdk node rows registry progress actions progress')
    (hle : progress.handleIndex ≤ rows.length) : progress'.handleIndex ≤ rows.length := by
  induction h with
  | nil => exact hle
  | cons hnext _ ih =>
      obtain ⟨hindex, row, hrow, -⟩ := verifyAction_eq_ok hnext
      obtain ⟨hlt, -⟩ := List.getElem?_eq_some_iff.1 hrow
      exact ih (by omega)

/-- **Registrations that pass are those of the rows.** -/
theorem Passed.registered {actions done : List Clvm}
    (h : Passed sdk node rows registry progress actions progress')
    (hdone : List.Forall₂ (Registered sdk node) (rows.take progress.handleIndex) done) :
    List.Forall₂ (Registered sdk node) (rows.take progress'.handleIndex) (done ++ actions) := by
  induction h generalizing done with
  | nil progress =>
      rw [List.append_nil]
      exact hdone
  | cons hnext _ ih =>
      obtain ⟨hindex, row, hrow, hregistered⟩ := verifyAction_eq_ok hnext
      rw [List.append_cons]
      refine ih ?_
      rw [hindex, List.take_add_one, hrow]
      exact List.rel_append hdone (.cons hregistered .nil)

/-! ## The spends -/

variable {walk walk' : Walk R} {batch : List Clvm}

@[simp] theorem finish_ne_panicked : finish rows i ≠ .panicked := by
  simp [finish]

theorem finish_eq_ok {n : ℕ} (h : finish rows i = .returned (.ok n)) :
    n = i ∧ rows.length ≤ i := by
  simp only [finish, Outcome.bind_eq_ok, Outcome.check_eq_ok, Outcome.pure_eq_ok] at h
  obtain ⟨-, hle, rfl⟩ := h
  exact ⟨rfl, hle⟩

/-- A round with rows left, at a spend. -/
theorem verifyRound_of_batchOf (hlt : walk.progress.handleIndex < rows.length)
    (h : BatchOf sdk node walk.registry batch) :
    verifyRound sdk node rows walk
      = match verifyBatch sdk node rows walk.registry walk.progress batch with
        | .panicked => .inr .panicked
        | .returned (.error e) => .inr (.fail e)
        | .returned (.ok progress) => .inl ⟨sdk.child walk.registry, progress⟩ := by
  obtain ⟨record, spend, hrecord, hspend, hactions⟩ := h
  unfold verifyRound
  rw [if_pos hlt]
  dsimp only
  rw [hrecord]
  dsimp only
  rw [hspend]
  dsimp only
  rw [hactions]

/-- Any other round is the last one, and does not panic. -/
theorem verifyRound_last (h : ∀ batch, walk.progress.handleIndex < rows.length →
    ¬ BatchOf sdk node walk.registry batch) :
    ∃ outcome, verifyRound sdk node rows walk = .inr outcome ∧
      (outcome = finish rows walk.progress.handleIndex ∨ ∃ e, outcome = .fail e) := by
  unfold verifyRound
  split
  · next hlt =>
      dsimp only
      cases hrecord : node.coinRecordByName (sdk.coin walk.registry).coinId with
      | error e => exact ⟨_, rfl, Or.inr ⟨e, rfl⟩⟩
      | ok answer =>
          cases answer with
          | none => exact ⟨_, rfl, Or.inr ⟨_, rfl⟩⟩
          | some record =>
              dsimp only
              cases hspend : node.puzzleAndSolution (sdk.coin walk.registry).coinId
                  record.spentBlockIndex with
              | error e => exact ⟨_, rfl, Or.inr ⟨e, rfl⟩⟩
              | ok answer =>
                  cases answer with
                  | none => exact ⟨_, rfl, Or.inl rfl⟩
                  | some spend =>
                      dsimp only
                      cases hactions : actionSpends sdk spend.solution with
                      | error e => exact ⟨_, rfl, Or.inr ⟨e, rfl⟩⟩
                      | ok actions =>
                          exact absurd ⟨record, spend, hrecord, hspend, hactions⟩ (h actions hlt)
  · exact ⟨_, rfl, Or.inl rfl⟩

variable (sdk node rows) in
/-- A round is the last one, or is at a spend. -/
theorem verifyRound_cases (walk : Walk R) :
    (∃ outcome, verifyRound sdk node rows walk = .inr outcome ∧
      (outcome = finish rows walk.progress.handleIndex ∨ ∃ e, outcome = .fail e)) ∨
    (walk.progress.handleIndex < rows.length ∧ ∃ batch, BatchOf sdk node walk.registry batch ∧
      verifyRound sdk node rows walk
        = match verifyBatch sdk node rows walk.registry walk.progress batch with
          | .panicked => .inr .panicked
          | .returned (.error e) => .inr (.fail e)
          | .returned (.ok progress) => .inl ⟨sdk.child walk.registry, progress⟩) := by
  by_cases h : ∃ batch, walk.progress.handleIndex < rows.length ∧
      BatchOf sdk node walk.registry batch
  · obtain ⟨batch, hlt, hbatch⟩ := h
    exact Or.inr ⟨hlt, batch, hbatch, verifyRound_of_batchOf hlt hbatch⟩
  · left
    exact verifyRound_last fun batch hlt hbatch => h ⟨batch, hlt, hbatch⟩

/-- **The walk goes on** to the next coin, behind registrations that pass. -/
theorem verifyRound_eq_inl : verifyRound sdk node rows walk = .inl walk' ↔
    walk.progress.handleIndex < rows.length ∧ ∃ batch, BatchOf sdk node walk.registry batch ∧
      Passed sdk node rows walk.registry walk.progress batch walk'.progress ∧
      walk'.registry = sdk.child walk.registry := by
  constructor
  · intro h
    rcases verifyRound_cases sdk node rows walk with ⟨outcome, hround, -⟩ |
      ⟨hlt, batch, hbatch, hround⟩
    · rw [hround] at h
      cases h
    · rw [hround] at h
      split at h
      · cases h
      · cases h
      · next progress hverify =>
          obtain rfl := Sum.inl.inj h
          exact ⟨hlt, batch, hbatch, verifyBatch_eq_ok.1 hverify, rfl⟩
  · rintro ⟨hlt, batch, hbatch, hpassed, hregistry⟩
    rw [verifyRound_of_batchOf hlt hbatch, verifyBatch_eq_ok.2 hpassed, ← hregistry]

/-- **The walk panics in a spend.** -/
theorem verifyRound_eq_panicked : verifyRound sdk node rows walk = .inr .panicked ↔
    walk.progress.handleIndex < rows.length ∧ ∃ batch, BatchOf sdk node walk.registry batch ∧
      verifyBatch sdk node rows walk.registry walk.progress batch = .panicked := by
  constructor
  · intro h
    rcases verifyRound_cases sdk node rows walk with ⟨outcome, hround, hlast⟩ |
      ⟨hlt, batch, hbatch, hround⟩
    · rw [hround] at h
      obtain rfl := Sum.inr.inj h
      rcases hlast with hfinish | ⟨e, hfail⟩
      · exact absurd hfinish.symm finish_ne_panicked
      · exact absurd hfail.symm Outcome.fail_ne_panicked
    · rw [hround] at h
      split at h
      · next hverify => exact ⟨hlt, batch, hbatch, hverify⟩
      · next e _ => exact absurd (Sum.inr.inj h) Outcome.fail_ne_panicked
      · cases h
  · rintro ⟨hlt, batch, hbatch, hpanicked⟩
    rw [verifyRound_of_batchOf hlt hbatch, hpanicked]

/-- The walk ends only behind the last row. -/
theorem verifyRound_eq_ok {n : ℕ}
    (h : verifyRound sdk node rows walk = .inr (.returned (.ok n))) :
    n = walk.progress.handleIndex ∧ rows.length ≤ walk.progress.handleIndex := by
  rcases verifyRound_cases sdk node rows walk with ⟨outcome, hround, hlast⟩ |
    ⟨hlt, batch, hbatch, hround⟩
  · rw [hround] at h
    obtain rfl := Sum.inr.inj h
    rcases hlast with hfinish | ⟨e, hfail⟩
    · exact finish_eq_ok hfinish.symm
    · exact absurd hfail.symm Outcome.fail_ne_ok
  · rw [hround] at h
    split at h
    · cases h
    · exact absurd (Sum.inr.inj h) Outcome.fail_ne_ok
    · cases h

/-! ## The whole walk -/

theorem arrives_iff : Arrives sdk node rows registry walk ↔
    Visits (verifyRound sdk node rows) ⟨registry, .start⟩ walk := by
  constructor
  · intro h
    induction h with
    | launch => exact .start
    | next _ hlt hbatch hpassed ih =>
        exact ih.next (verifyRound_eq_inl.2 ⟨hlt, _, hbatch, hpassed, rfl⟩)
  · intro h
    induction h with
    | start => exact .launch
    | @next walk next _ hround ih =>
        obtain ⟨hlt, batch, hbatch, hpassed, hregistry⟩ := verifyRound_eq_inl.1 hround
        obtain ⟨latest, progress⟩ := next
        obtain rfl : latest = sdk.child walk.registry := hregistry
        exact ih.next hlt hbatch hpassed

/-- **Where the walk is, the rows before are those registered on the chain.** -/
theorem Arrives.onChain (h : Arrives sdk node rows registry walk) :
    ∃ actions, OnChain sdk node registry actions walk.registry ∧
      List.Forall₂ (Registered sdk node) (rows.take walk.progress.handleIndex) actions := by
  induction h with
  | launch => exact ⟨[], .launch, .nil⟩
  | next _ _ hbatch hpassed ih =>
      obtain ⟨actions, honChain, hdone⟩ := ih
      exact ⟨actions ++ _, honChain.spent hbatch, hpassed.registered hdone⟩

theorem Arrives.index_le (h : Arrives sdk node rows registry walk) :
    walk.progress.handleIndex ≤ rows.length := by
  induction h with
  | launch => exact Nat.zero_le _
  | next _ _ _ hpassed ih => exact hpassed.index_le ih

/-- **A walk of a finite chain ends.** -/
theorem walk_ends (rows : List XchandlesLaunchRecord) {k : ℕ}
    (hend : ∀ batch, ¬ BatchOf sdk node (sdk.child^[k] registry) batch) (progress : Progress) :
    ∃ outcome, Returns (verifyRound sdk node rows) ⟨registry, progress⟩ outcome := by
  induction k generalizing registry progress with
  | zero =>
      rcases verifyRound_cases sdk node rows ⟨registry, progress⟩ with
        ⟨outcome, hround, -⟩ | ⟨-, batch, hbatch, -⟩
      · exact ⟨outcome, (Loop.returns_inr hround).2 rfl⟩
      · exact absurd hbatch (hend batch)
  | succ k ih =>
      cases hround : verifyRound sdk node rows ⟨registry, progress⟩ with
      | inr outcome => exact ⟨outcome, (Loop.returns_inr hround).2 rfl⟩
      | inl walk =>
          obtain ⟨-, -, -, -, hregistry⟩ := verifyRound_eq_inl.1 hround
          obtain ⟨latest, progress'⟩ := walk
          obtain rfl : latest = sdk.child registry := hregistry
          obtain ⟨outcome, houtcome⟩ := ih hend progress'
          exact ⟨outcome, (Loop.returns_inl hround).2 houtcome⟩

/-- **When the walk panics.** -/
theorem panics_iff : Returns (verifyRound sdk node rows) ⟨registry, .start⟩ .panicked ↔
    Overrun sdk node rows registry ∨ EmptyMessage sdk node rows registry := by
  have hcomes : Returns (verifyRound sdk node rows) ⟨registry, .start⟩ .panicked ↔
      ∃ walk action, ComesTo sdk node rows registry walk action ∧
        verifyAction sdk node rows walk.registry walk.progress action = .panicked := by
    rw [Loop.returns_iff_visits]
    constructor
    · rintro ⟨walk, hvisits, hround⟩
      obtain ⟨hlt, batch, hbatch, hpanics⟩ := verifyRound_eq_panicked.1 hround
      obtain ⟨before, action, after, last, rfl, hpassed, hlast⟩ := verifyBatch_eq_panicked.1 hpanics
      exact ⟨⟨walk.registry, last⟩, action,
        ⟨walk.progress, before, after, arrives_iff.2 hvisits, hlt, hbatch, hpassed⟩, hlast⟩
    · rintro ⟨walk, action, ⟨progress, before, after, harrives, hlt, hbatch, hpassed⟩, hlast⟩
      refine ⟨⟨walk.registry, progress⟩, arrives_iff.1 harrives, ?_⟩
      exact verifyRound_eq_panicked.2 ⟨hlt, _, hbatch,
        verifyBatch_eq_panicked.2 ⟨before, action, after, _, rfl, hpassed, hlast⟩⟩
  rw [hcomes]
  constructor
  · rintro ⟨walk, action, hcome, hpanics⟩
    rcases verifyAction_eq_panicked.1 hpanics with ⟨hsolution, hle⟩ |
      ⟨sendMessage, constants, hbefore, hmode, hempty⟩
    · exact Or.inl ⟨walk, action, hcome, hle, hsolution⟩
    · exact Or.inr ⟨walk, action, sendMessage, constants, hcome, hbefore, hmode, hempty⟩
  · rintro (⟨walk, action, hcome, hle, hsolution⟩ |
      ⟨walk, action, sendMessage, constants, hcome, hbefore, hmode, hempty⟩)
    · exact ⟨walk, action, hcome, verifyAction_eq_panicked.2 (Or.inl ⟨hsolution, hle⟩)⟩
    · exact ⟨walk, action, hcome, verifyAction_eq_panicked.2
        (Or.inr ⟨sendMessage, constants, hbefore, hmode, hempty⟩)⟩

/-- **When the walk checks the expected prefix**: no spend that it comes to goes on behind the
last row with what may be a registration, and no message of the right mode is empty. -/
theorem checks_prefix_iff {R : Type} (sdk : DeploymentSdk R) (node : DeploymentNode)
    (handlesToLaunch : List XchandlesLaunchRecord) (expectedCount : Option ℕ) (registry : R)
    (hfinite : ∃ k, ∀ batch, ¬ BatchOf sdk node (sdk.child^[k] registry) batch) :
    ChecksPrefix sdk node handlesToLaunch expectedCount registry ↔
      ∀ rows, handlesToVerify handlesToLaunch expectedCount = .ok rows →
        ¬ Overrun sdk node rows registry ∧ ¬ EmptyMessage sdk node rows registry := by
  unfold ChecksPrefix Verifies
  cases hrows : handlesToVerify handlesToLaunch expectedCount with
  | error e => exact ⟨fun _ _ => nofun, fun _ => ⟨.error e, rfl, fun _ => nofun⟩⟩
  | ok rows =>
      dsimp only
      constructor
      · rintro ⟨result, hreturns, -⟩ _ ⟨⟩
        have hnot : ¬ (Overrun sdk node rows registry ∨ EmptyMessage sdk node rows registry) := by
          intro hpanics
          cases hreturns.unique (panics_iff.2 hpanics)
        exact not_or.1 hnot
      · intro hsafe
        obtain ⟨hoverrun, hempty⟩ := hsafe rows rfl
        obtain ⟨k, hend⟩ := hfinite
        obtain ⟨outcome, hreturns⟩ := walk_ends rows hend .start
        cases outcome with
        | panicked => exact absurd (panics_iff.1 hreturns) (not_or.2 ⟨hoverrun, hempty⟩)
        | returned result =>
            refine ⟨result, hreturns, ?_⟩
            rintro n rfl
            obtain ⟨walk, hvisits, hround⟩ := Loop.returns_iff_visits.1 hreturns
            obtain ⟨rfl, hle⟩ := verifyRound_eq_ok hround
            have harrives := arrives_iff.2 hvisits
            have hindex : walk.progress.handleIndex = rows.length :=
              harrives.index_le.antisymm hle
            obtain ⟨actions, honChain, hdone⟩ := harrives.onChain
            rw [hindex, List.take_length] at hdone
            refine ⟨rows, actions, walk.registry, rfl, hindex, honChain, ?_⟩
            rwa [hdone.length_eq, List.take_length]

end

/-! ## A registry, as an example -/

namespace DeploymentExample

open Xchandles.Example (bytes32)

/-- The coins of a registry. -/
def coin : ℕ → Coin
  | 0 => ⟨bytes32 1, bytes32 2, 1⟩
  | n + 1 => ⟨(coin n).coinId, bytes32 2, 1⟩

/-- An SDK for spends that are parsed already: an action spend is the handle it registers, and
every NFT sends one message. -/
def sdk (batch : List Clvm) (message : Bytes) : DeploymentSdk ℕ where
  coin := coin
  child n := n + 1
  nodeFromBytes bytes := .ok (.atom bytes)
  alloc bytes := .ok (.atom bytes)
  innerSolution solution := .ok solution
  parseSolution _ := .ok batch
  registerSolution handle := .ok ⟨handle.treeHash256, bytes32 5, bytes32 5, .atom []⟩
  pricingSolution _ := .ok ⟨1000, 1⟩
  launcherSolution _ := .ok (bytes32 6)
  parseNft _ _ _ := .ok (some ⟨bytes32 3, 300, .atom [], .atom [1], .atom []⟩)
  run _ _ := .ok (.atom [])
  conditions _ := .ok [.aggSigMe, .sendMessage ⟨18, message, [.atom (bytes32 2)]⟩,
    .createCoin ⟨bytes32 7, 1, some (.ofList [.atom (bytes32 7)])⟩]
  metadataTreeHash _ := (Clvm.atom []).treeHash256
  encodeAddress _ := .ok "xch1"
  registerOwner := 97

/-- A node of a chain on which the second coin of the registry is not spent. -/
def node : DeploymentNode where
  coinRecordByName _ := .ok (some ⟨100⟩)
  puzzleAndSolution id _ := .ok (if id = (coin 1).coinId then none else some ⟨[], []⟩)

/-- The row of a handle. -/
def row (handle : String) : XchandlesLaunchRecord where
  handle := handle
  recipient := bytes32 7
  expiration := 31558600
  imageUris := []
  imageHash := bytes32 8
  metadataUris := []
  metadataHash := bytes32 8
  licenseUris := []
  licenseHash := bytes32 8

/-- The registrations of two handles. -/
def registrations : List Clvm := [.atom (utf8Bytes "a"), .atom (utf8Bytes "b")]

theorem finite (batch : List Clvm) (message : Bytes) : ∃ k, ∀ actions,
    ¬ BatchOf (sdk batch message) node ((sdk batch message).child^[k] 0) actions := by
  refine ⟨1, fun actions ⟨record, spend, _, hspend, _⟩ => ?_⟩
  have hnone : node.puzzleAndSolution (coin 1).coinId record.spentBlockIndex = .ok none :=
    congrArg Except.ok (if_pos rfl)
  cases hnone.symm.trans hspend

end DeploymentExample

open DeploymentExample in
/-- Both handles are registered as in the list, in one spend. -/
theorem checks_prefix_iff_two :
    ChecksPrefix (sdk registrations [97]) node [row "a", row "b", row "c"] (some 2) 0 := by
  have hreturns : Returns (verifyRound (sdk registrations [97]) node [row "a", row "b"])
      ⟨0, .start⟩ (.returned (.ok 2)) := ⟨2, by decide +kernel⟩
  refine (checks_prefix_iff _ _ _ _ _ (finite _ _)).2 ?_
  rintro rows ⟨⟩
  refine not_or.1 fun hpanics => ?_
  cases hreturns.unique (panics_iff.2 hpanics)

open DeploymentExample in
/-- **The walk panics**: the spend with the last expected handle registers another one, or the
message of an NFT is empty. -/
theorem checks_prefix_fails :
    Verifies (sdk registrations [97]) node [row "a", row "b"] (some 1) 0 .panicked ∧
    ¬ ChecksPrefix (sdk registrations [97]) node [row "a", row "b"] (some 1) 0 ∧
    Verifies (sdk registrations []) node [row "a", row "b"] none 0 .panicked ∧
    ¬ ChecksPrefix (sdk registrations []) node [row "a", row "b"] none 0 := by
  have hbehind : Returns (verifyRound (sdk registrations [97]) node [row "a"]) ⟨0, .start⟩
      .panicked := ⟨1, by decide +kernel⟩
  have hempty : Returns (verifyRound (sdk registrations []) node [row "a", row "b"]) ⟨0, .start⟩
      .panicked := ⟨1, by decide +kernel⟩
  refine ⟨hbehind, ?_, hempty, ?_⟩
  · rintro ⟨result, hreturns, -⟩
    cases hbehind.unique hreturns
  · rintro ⟨result, hreturns, -⟩
    cases hempty.unique hreturns

end SlotMachine.Cli.Deployment
