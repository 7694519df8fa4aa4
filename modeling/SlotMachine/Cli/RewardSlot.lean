import SlotMachine.Clvm.Curry
import SlotMachine.Cli.Outcome
import SlotMachine.Ledger.Loop
import SlotMachine.Listener.SingletonStore

/-!
# The search for a reward slot

A reward slot is found by a hint, the hash of the start of its epoch.  If an epoch has none,
the epoch before it is searched, and so on downwards.

* `examine` — what the search makes of a coin with the hint, by the spend of its parent.
* `searchRound`, `FindRewardSlot` — the search (`reward_distributor/sync_distributor.rs`).
* `Slotted` — the reward slots there are.
* `Ends` — the search ends, with the latest slot or an error, and without an underflow.
* `ends_iff` — **when it does**: some epoch that is not below zero stops it, and every coin
  before that has a parent that the search can read.
-/

namespace SlotMachine.Cli

open Loop
open Listener (Coin)

/-! ## What the search reads -/

/-- `CoinRecord`. -/
structure CoinRecord where
  coin : Coin
  confirmedBlockIndex : ℕ
  deriving DecidableEq

/-- `CoinSpend`. -/
structure CoinSpend where
  coin : Coin
  puzzleReveal : Clvm
  solution : Clvm

/-- The answers of a node.  A call fails, or its answer has what was asked for or not. -/
structure RewardNode where
  coinRecordsByHint : Bytes → Except CliError (Option (List CoinRecord))
  puzzleAndSolution : Bytes → ℕ → Except CliError (Option CoinSpend)

/-- `RewardDistributorRewardSlotValue`. -/
structure RewardSlotValue where
  counter : ℕ
  epochStart : ℕ
  nextEpochInitialized : Bool
  rewards : ℕ
  deriving DecidableEq

/-- `Slot`. -/
structure RewardSlot where
  value : RewardSlotValue
  coin : Coin
  deriving DecidableEq

/-- `RewardDistributorConstants`, as far as the search reads them. -/
structure RewardDistributorConstants where
  launcherId : Bytes
  epochSeconds : ℕ

/-- `RewardDistributor`, as it is parsed from a spend. -/
structure RewardDistributor where
  launcherId : Bytes
  createdRewardSlots : List RewardSlotValue
  createdSlotCoin : RewardSlotValue → Coin

/-- What the SDK parses. -/
structure RewardSdk where
  fromSpend : CoinSpend → RewardDistributorConstants →
    Except CliError (Option RewardDistributor)
  /-- `SingletonLayer::parse_puzzle`: the hash of the inner puzzle of a singleton. -/
  parseSingleton : Clvm → Except CliError (Option Bytes)
  /-- The coin of a slot, by its lineage and its value. -/
  slotCoin : (parentParentCoinInfo parentInnerPuzzleHash : Bytes) → (parentAmount : ℕ) →
    (launcherId : Bytes) → RewardSlotValue → Coin

/-! ## The search -/

/-- What the search makes of a coin. -/
inductive Verdict where
  | next
  | found (slot : RewardSlot)
  | failed (error : CliError)
  | panicked

/-- The slot of the first epoch, which the eve spend creates. -/
def eveSlotValue (epochStart : ℕ) : RewardSlotValue := ⟨0, epochStart, false, 0⟩

/-- The hint of an epoch. -/
def epochHint (epochStart : ℕ) : Bytes := (Clvm.ofInt epochStart).treeHash256

section

variable (sdk : RewardSdk) (node : RewardNode) (constants : RewardDistributorConstants)

/-- What the search makes of the spend of the parent of a coin. -/
def examineSpend (epochStart : ℕ) (record : CoinRecord) (spend : CoinSpend) : Verdict :=
  match sdk.fromSpend spend constants with
  | .error e => .failed e
  | .ok none =>
      -- eve spend
      match sdk.parseSingleton spend.puzzleReveal with
      | .error e => .failed e
      | .ok none => .panicked
      | .ok (some innerPuzzleHash) =>
          let slot : RewardSlot := ⟨eveSlotValue epochStart,
            sdk.slotCoin spend.coin.parentCoinInfo innerPuzzleHash spend.coin.amount
              constants.launcherId (eveSlotValue epochStart)⟩
          if slot.coin ≠ record.coin then .next else .found slot
  | .ok (some distributor) =>
      if distributor.launcherId ≠ constants.launcherId then .next
      else match distributor.createdRewardSlots.findSome? fun value =>
          if value.epochStart = epochStart then
            let slot : RewardSlot := ⟨value, distributor.createdSlotCoin value⟩
            if slot.coin = record.coin then some slot else none
          else none with
        | some slot => .found slot
        | none => .next

/-- What the search makes of a coin with the hint. -/
def examine (epochStart : ℕ) (record : CoinRecord) : Verdict :=
  match node.puzzleAndSolution record.coin.parentCoinInfo record.confirmedBlockIndex with
  | .error e => .failed e
  | .ok none => .failed (.coinNotSpent record.coin.parentCoinInfo)
  | .ok (some spend) => examineSpend sdk constants epochStart record spend

/-- The coins of an epoch, until one of them stops the search. -/
def examineAll (epochStart : ℕ) : List CoinRecord → Verdict
  | [] => .next
  | record :: records =>
      match examine sdk node constants epochStart record with
      | .next => examineAll epochStart records
      | verdict => verdict

/-- A round of `find_reward_slot`, for an epoch. -/
def searchRound (profile : Profile) (epochStart : ℕ) : ℕ ⊕ Outcome RewardSlot :=
  match node.coinRecordsByHint (epochHint epochStart) with
  | .error e => .inr (.returned (.error e))
  | .ok none => .inr (.returned (.error .missingHint))
  | .ok (some records) =>
      match examineAll sdk node constants epochStart records with
      | .found slot => .inr (.returned (.ok slot))
      | .failed e => .inr (.returned (.error e))
      | .panicked => .inr .panicked
      | .next =>
          match profile.sub 64 epochStart constants.epochSeconds with
          | none => .inr .panicked
          | some epochStart => .inl epochStart

/-- `find_reward_slot` ends so, if it ends. -/
def FindRewardSlot (profile : Profile) (epochStart : ℕ) (outcome : Outcome RewardSlot) : Prop :=
  Returns (searchRound sdk node constants profile) epochStart outcome

/-! ## What it should do -/

/-- A spend creates a reward slot: as a spend of the distributor, or as its eve spend. -/
inductive Creates (epochStart : ℕ) (spend : CoinSpend) (slot : RewardSlot) : Prop where
  | later (distributor : RewardDistributor) :
      sdk.fromSpend spend constants = .ok (some distributor) →
      distributor.launcherId = constants.launcherId →
      slot.value ∈ distributor.createdRewardSlots → slot.value.epochStart = epochStart →
      slot.coin = distributor.createdSlotCoin slot.value → Creates epochStart spend slot
  | eve (innerPuzzleHash : Bytes) : sdk.fromSpend spend constants = .ok none →
      sdk.parseSingleton spend.puzzleReveal = .ok (some innerPuzzleHash) →
      slot.value = eveSlotValue epochStart →
      slot.coin = sdk.slotCoin spend.coin.parentCoinInfo innerPuzzleHash spend.coin.amount
        constants.launcherId slot.value → Creates epochStart spend slot

/-- **A reward slot of an epoch is there**: an unspent coin with the hint of the epoch, which
the spend of its parent created as the slot. -/
def Slotted (epochStart : ℕ) (slot : RewardSlot) : Prop :=
  ∃ records record spend,
    node.coinRecordsByHint (epochHint epochStart) = .ok (some records) ∧ record ∈ records ∧
    record.coin = slot.coin ∧
    node.puzzleAndSolution record.coin.parentCoinInfo record.confirmedBlockIndex
      = .ok (some spend) ∧
    Creates sdk constants epochStart spend slot

/-- A slot is that of the latest epoch that has one, counted back from the one requested. -/
def Latest (epochStart : ℕ) (slot : RewardSlot) : Prop :=
  ∃ back, back * constants.epochSeconds ≤ epochStart ∧
    Slotted sdk node constants (epochStart - back * constants.epochSeconds) slot ∧
    ∀ less < back, ∀ slot',
      ¬ Slotted sdk node constants (epochStart - less * constants.epochSeconds) slot'

/-- **The search ends as it should**: with the latest slot or an error, and without an
underflow on the way. -/
structure Ends (profile : Profile) (epochStart : ℕ) : Prop where
  returns : ∃ result, FindRewardSlot sdk node constants profile epochStart (.returned result) ∧
    ∀ slot, result = .ok slot → Latest sdk node constants epochStart slot
  no_underflow : ∀ start start', Visits (searchRound sdk node constants profile) epochStart start →
    searchRound sdk node constants profile start = .inl start' → constants.epochSeconds ≤ start

/-! ## Where it stops -/

/-- The search goes past all coins of an epoch. -/
def Passed (epochStart : ℕ) : Prop :=
  ∃ records, node.coinRecordsByHint (epochHint epochStart) = .ok (some records) ∧
    ∀ record ∈ records, examine sdk node constants epochStart record = .next

/-- The search stops at an epoch: the node does not list its coins, or one of them is the slot
or cannot be read, and the search goes past those before it. -/
inductive Stopped (epochStart : ℕ) : Prop where
  | unlisted : (∀ records, node.coinRecordsByHint (epochHint epochStart) ≠ .ok (some records)) →
      Stopped epochStart
  | coin (before after : List CoinRecord) (record : CoinRecord) :
      node.coinRecordsByHint (epochHint epochStart) = .ok (some (before ++ record :: after)) →
      (∀ r ∈ before, examine sdk node constants epochStart r = .next) →
      ((∃ slot, examine sdk node constants epochStart record = .found slot) ∨
        ∃ e, examine sdk node constants epochStart record = .failed e) → Stopped epochStart

/-- **The search is stopped** at an epoch that is not below zero, and goes past all after it. -/
def StoppedInTime (epochStart : ℕ) : Prop :=
  ∃ back, back * constants.epochSeconds ≤ epochStart ∧
    Stopped sdk node constants (epochStart - back * constants.epochSeconds) ∧
    ∀ less < back, Passed sdk node constants (epochStart - less * constants.epochSeconds)

variable {sdk node constants} {profile : Profile} {epochStart : ℕ} {record : CoinRecord}
variable {records : List CoinRecord} {slot : RewardSlot}

/-! ## One coin -/

/-- **What is found is the slot**, by the spend of its parent. -/
theorem creates_of_found (h : examine sdk node constants epochStart record = .found slot) :
    record.coin = slot.coin ∧ ∃ spend,
      node.puzzleAndSolution record.coin.parentCoinInfo record.confirmedBlockIndex
        = .ok (some spend) ∧ Creates sdk constants epochStart spend slot := by
  unfold examine at h
  split at h
  · cases h
  · cases h
  next spend hspend =>
  unfold examineSpend at h
  split at h
  · cases h
  · next hparsed =>
      split at h
      · cases h
      · cases h
      next innerPuzzleHash hsingleton =>
      dsimp only at h
      split at h
      · cases h
      · next hcoin =>
          obtain rfl := Verdict.found.inj h
          exact ⟨(not_not.1 hcoin).symm, spend, hspend,
            .eve innerPuzzleHash hparsed hsingleton rfl rfl⟩
  next distributor hparsed =>
  split at h
  · cases h
  next hlauncher =>
  split at h
  · next found hfound =>
      obtain rfl := Verdict.found.inj h
      obtain ⟨value, hvalue, hsome⟩ := List.exists_of_findSome?_eq_some hfound
      split at hsome
      · next hepoch =>
          dsimp only at hsome
          split at hsome
          · next hcoin =>
              obtain rfl := Option.some.inj hsome
              exact ⟨hcoin.symm, spend, hspend,
                .later distributor hparsed (not_not.1 hlauncher) hvalue hepoch rfl⟩
          · cases hsome
      · cases hsome
  · cases h

/-- **What the search goes past is no slot.** -/
theorem not_creates_of_next (h : examine sdk node constants epochStart record = .next)
    {spend : CoinSpend} (hspend : node.puzzleAndSolution record.coin.parentCoinInfo
      record.confirmedBlockIndex = .ok (some spend))
    (hcreates : Creates sdk constants epochStart spend slot) : record.coin ≠ slot.coin := by
  intro hcoin
  unfold examine at h
  rw [hspend] at h
  dsimp only at h
  unfold examineSpend at h
  cases hcreates with
  | later distributor hparsed hlauncher hvalue hepoch hslot =>
      rw [hparsed] at h
      dsimp only at h
      rw [if_neg (not_not.2 hlauncher)] at h
      split at h
      · cases h
      · next hnone =>
          rw [List.findSome?_eq_none_iff] at hnone
          have hother := hnone slot.value hvalue
          rw [if_pos hepoch] at hother
          rw [if_pos (hslot.symm.trans hcoin.symm)] at hother
          cases hother
  | eve innerPuzzleHash hparsed hsingleton hvalue hslot =>
      rw [hparsed] at h
      dsimp only at h
      rw [hsingleton] at h
      dsimp only at h
      rw [hvalue] at hslot
      rw [if_neg (not_not.2 (hslot.symm.trans hcoin.symm))] at h
      cases h

/-! ## One epoch -/

theorem examineAll_next (h : ∀ r ∈ records, examine sdk node constants epochStart r = .next) :
    examineAll sdk node constants epochStart records = .next := by
  induction records with
  | nil => rfl
  | cons record records ih =>
      rw [examineAll, h record List.mem_cons_self]
      exact ih fun r hr => h r (List.mem_cons_of_mem _ hr)

variable (sdk node constants epochStart records) in
/-- Either the search goes past all coins, or one of them decides. -/
theorem examineAll_cases : (∀ r ∈ records, examine sdk node constants epochStart r = .next) ∨
    ∃ before record after, records = before ++ record :: after ∧
      (∀ r ∈ before, examine sdk node constants epochStart r = .next) ∧
      examine sdk node constants epochStart record ≠ .next ∧
      examineAll sdk node constants epochStart records
        = examine sdk node constants epochStart record := by
  induction records with
  | nil => exact Or.inl fun r hr => absurd hr List.not_mem_nil
  | cons record records ih =>
      cases hverdict : examine sdk node constants epochStart record with
      | next =>
          rcases ih with hall | ⟨before, record', after, hsplit, hbefore, hne, heq⟩
          · left
            intro r hr
            rcases List.mem_cons.1 hr with rfl | hr
            · exact hverdict
            · exact hall r hr
          · right
            refine ⟨record :: before, record', after, ?_, ?_, hne, ?_⟩
            · rw [hsplit, List.cons_append]
            · intro r hr
              rcases List.mem_cons.1 hr with rfl | hr
              · exact hverdict
              · exact hbefore r hr
            · rw [examineAll, hverdict]
              exact heq
      | found slot =>
          refine Or.inr ⟨[], record, records, rfl, nofun, ?_, ?_⟩
          · rw [hverdict]; exact nofun
          · rw [examineAll, hverdict]
      | failed e =>
          refine Or.inr ⟨[], record, records, rfl, nofun, ?_, ?_⟩
          · rw [hverdict]; exact nofun
          · rw [examineAll, hverdict]
      | panicked =>
          refine Or.inr ⟨[], record, records, rfl, nofun, ?_, ?_⟩
          · rw [hverdict]; exact nofun
          · rw [examineAll, hverdict]

/-- An epoch that the search goes past has no slot. -/
theorem Passed.not_slotted (h : Passed sdk node constants epochStart) :
    ¬ Slotted sdk node constants epochStart slot := by
  rintro ⟨records, record, spend, hrecords, hmem, hcoin, hspend, hcreates⟩
  obtain ⟨records', hrecords', hall⟩ := h
  rw [hrecords] at hrecords'
  obtain rfl : records = records' := Option.some.inj (Except.ok.inj hrecords')
  exact not_creates_of_next (hall record hmem) hspend hcreates hcoin

variable (profile) in
/-- Past an epoch the search goes on with the one before it. -/
theorem Passed.searchRound_eq (h : Passed sdk node constants epochStart)
    (hle : constants.epochSeconds ≤ epochStart) :
    searchRound sdk node constants profile epochStart
      = .inl (epochStart - constants.epochSeconds) := by
  obtain ⟨records, hrecords, hall⟩ := h
  unfold searchRound
  rw [hrecords]
  simp only [examineAll_next hall, Profile.sub_of_le hle]

variable (profile) in
/-- **At an epoch that stops it** the search returns the slot of the epoch, or an error. -/
theorem Stopped.searchRound_eq (h : Stopped sdk node constants epochStart) :
    ∃ result, searchRound sdk node constants profile epochStart = .inr (.returned result) ∧
      ∀ slot, result = .ok slot → Slotted sdk node constants epochStart slot := by
  unfold searchRound
  cases h with
  | unlisted hnone =>
      cases hrecords : node.coinRecordsByHint (epochHint epochStart) with
      | error e => exact ⟨_, rfl, nofun⟩
      | ok answer =>
          cases answer with
          | none => exact ⟨_, rfl, nofun⟩
          | some records => exact absurd hrecords (hnone records)
  | coin before after record hrecords hbefore hstops =>
      have hall : examineAll sdk node constants epochStart (before ++ record :: after)
          = examine sdk node constants epochStart record := by
        clear hrecords
        induction before with
        | nil =>
            rw [List.nil_append, examineAll]
            rcases hstops with ⟨slot, hfound⟩ | ⟨e, hfailed⟩
            · rw [hfound]
            · rw [hfailed]
        | cons first before ih =>
            rw [List.cons_append, examineAll, hbefore first List.mem_cons_self]
            exact ih fun r hr => hbefore r (List.mem_cons_of_mem _ hr)
      rw [hrecords]
      dsimp only
      rw [hall]
      rcases hstops with ⟨slot, hfound⟩ | ⟨e, hfailed⟩
      · rw [hfound]
        refine ⟨_, rfl, fun slot' heq => ?_⟩
        obtain rfl := Except.ok.inj heq
        obtain ⟨hcoin, spend, hspend, hcreates⟩ := creates_of_found hfound
        exact ⟨_, record, spend, hrecords, by simp, hcoin, hspend, hcreates⟩
      · rw [hfailed]
        exact ⟨_, rfl, nofun⟩

/-- Where the search returns, it is stopped. -/
theorem stopped_of_returned {result : Except CliError RewardSlot}
    (h : searchRound sdk node constants profile epochStart = .inr (.returned result)) :
    Stopped sdk node constants epochStart := by
  unfold searchRound at h
  split at h
  · next e hrecords =>
      exact .unlisted fun records heq => by rw [hrecords] at heq; cases heq
  · next hrecords =>
      exact .unlisted fun records heq => by rw [hrecords] at heq; cases heq
  next records hrecords =>
  rcases examineAll_cases sdk node constants epochStart records with
    hall | ⟨before, record, after, hsplit, hbefore, -, heq⟩
  · rw [examineAll_next hall] at h
    dsimp only at h
    split at h
    · cases Sum.inr.inj h
    · cases h
  · rw [hsplit] at hrecords
    refine .coin before after record hrecords hbefore ?_
    rw [heq] at h
    cases hverdict : examine sdk node constants epochStart record with
    | found slot => exact Or.inl ⟨slot, rfl⟩
    | failed e => exact Or.inr ⟨e, rfl⟩
    | panicked =>
        rw [hverdict] at h
        cases Sum.inr.inj h
    | next =>
        rw [hverdict] at h
        dsimp only at h
        split at h
        · cases Sum.inr.inj h
        · cases h

/-- Where the search goes on, it has gone past all coins. -/
theorem passed_of_inl {next : ℕ}
    (h : searchRound sdk node constants profile epochStart = .inl next) :
    Passed sdk node constants epochStart ∧
      profile.sub 64 epochStart constants.epochSeconds = some next := by
  unfold searchRound at h
  split at h
  · cases h
  · cases h
  next records hrecords =>
  rcases examineAll_cases sdk node constants epochStart records with
    hall | ⟨before, record, after, -, -, hne, heq⟩
  · rw [examineAll_next hall] at h
    dsimp only at h
    split at h
    · cases h
    · next start hstart =>
        obtain rfl := Sum.inl.inj h
        exact ⟨⟨records, hrecords, hall⟩, hstart⟩
  · rw [heq] at h
    cases hverdict : examine sdk node constants epochStart record with
    | next => exact absurd hverdict hne
    | found slot => rw [hverdict] at h; cases h
    | failed e => rw [hverdict] at h; cases h
    | panicked => rw [hverdict] at h; cases h

/-! ## All epochs -/

/-- Some epochs before the epoch before. -/
theorem sub_epochs_succ (epochStart less : ℕ) :
    epochStart - constants.epochSeconds - less * constants.epochSeconds
      = epochStart - (less + 1) * constants.epochSeconds := by
  rw [Nat.succ_mul, Nat.sub_sub, Nat.add_comm]

/-- A search that is stopped at once ends with the slot it found, which is the latest. -/
theorem Stopped.ends (h : Stopped sdk node constants epochStart) :
    Ends sdk node constants profile epochStart := by
  obtain ⟨result, hround, hslot⟩ := h.searchRound_eq profile
  refine ⟨⟨result, (returns_inr hround).2 rfl, fun slot hok => ?_⟩, ?_⟩
  · refine ⟨0, by omega, ?_, fun less hless => absurd hless (Nat.not_lt_zero _)⟩
    rw [Nat.zero_mul, Nat.sub_zero]
    exact hslot slot hok
  · intro start start' hvisits hinl
    rw [hvisits.eq_of_inr hround, hround] at hinl
    cases hinl

/-- A search that goes past an epoch ends as the search from the epoch before it. -/
theorem Passed.ends (h : Passed sdk node constants epochStart)
    (hle : constants.epochSeconds ≤ epochStart)
    (hrest : Ends sdk node constants profile (epochStart - constants.epochSeconds)) :
    Ends sdk node constants profile epochStart := by
  have hround := h.searchRound_eq profile hle
  obtain ⟨⟨result, hreturns, hlatest⟩, hno⟩ := hrest
  refine ⟨⟨result, (returns_inl hround).2 hreturns, fun slot hok => ?_⟩, ?_⟩
  · obtain ⟨more, hmore, hslotted, hnone⟩ := hlatest slot hok
    refine ⟨more + 1, by rw [Nat.succ_mul]; omega, ?_, fun less hless slot' => ?_⟩
    · rwa [sub_epochs_succ] at hslotted
    · cases less with
      | zero =>
          rw [Nat.zero_mul, Nat.sub_zero]
          exact h.not_slotted
      | succ less =>
          rw [← sub_epochs_succ]
          exact hnone less (by omega) slot'
  · intro start start' hvisits hinl
    rcases hvisits.cases_inl hround with rfl | hbehind
    · exact hle
    · exact hno start start' hbehind hinl

/-- A search that is stopped in time returns, and does not go below zero. -/
theorem StoppedInTime.ends (h : StoppedInTime sdk node constants epochStart) :
    Ends sdk node constants profile epochStart := by
  obtain ⟨back, hle, hstopped, hpassed⟩ := h
  induction back generalizing epochStart with
  | zero =>
      rw [Nat.zero_mul, Nat.sub_zero] at hstopped
      exact hstopped.ends
  | succ back ih =>
      rw [Nat.succ_mul] at hle
      have hfirst := hpassed 0 (Nat.succ_pos back)
      rw [Nat.zero_mul, Nat.sub_zero] at hfirst
      refine hfirst.ends (by omega) (ih (by omega) ?_ fun less hless => ?_)
      · rwa [sub_epochs_succ]
      · rw [sub_epochs_succ]
        exact hpassed (less + 1) (by omega)

/-- A search that returns without going below zero is stopped in time. -/
theorem Ends.stoppedInTime (h : Ends sdk node constants profile epochStart) :
    StoppedInTime sdk node constants epochStart := by
  obtain ⟨⟨result, ⟨rounds, hrun⟩, -⟩, hno⟩ := h
  induction rounds generalizing epochStart with
  | zero => cases hrun
  | succ rounds ih =>
      cases hround : searchRound sdk node constants profile epochStart with
      | inr outcome =>
          rw [run_inr hround] at hrun
          obtain rfl := Option.some.inj hrun
          refine ⟨0, by omega, ?_, fun less hless => absurd hless (Nat.not_lt_zero _)⟩
          rw [Nat.zero_mul, Nat.sub_zero]
          exact stopped_of_returned hround
      | inl next =>
          rw [run_inl hround] at hrun
          have hle := hno epochStart next .start hround
          obtain ⟨hpassed, hnext⟩ := passed_of_inl hround
          rw [Profile.sub_of_le hle] at hnext
          obtain rfl := Option.some.inj hnext
          obtain ⟨back, hback, hstopped, hall⟩ := ih (fun start start' hvisits hinl =>
            hno start start' (hvisits.of_inl hround) hinl) hrun
          refine ⟨back + 1, by rw [Nat.succ_mul]; omega, ?_, fun less hless => ?_⟩
          · rwa [← sub_epochs_succ]
          · cases less with
            | zero => rwa [Nat.zero_mul, Nat.sub_zero]
            | succ less =>
                rw [← sub_epochs_succ]
                exact hall less (by omega)

end

/-- **When the search ends as it should**: it is stopped at an epoch that is not below zero. -/
theorem ends_iff (sdk : RewardSdk) (node : RewardNode) (constants : RewardDistributorConstants)
    (profile : Profile) (epochStart : ℕ) :
    Ends sdk node constants profile epochStart ↔ StoppedInTime sdk node constants epochStart :=
  ⟨Ends.stoppedInTime, StoppedInTime.ends⟩

/-! ## Searches that do not end -/

namespace RewardExample

/-- An SDK for which no spend is one of a distributor, nor any puzzle a singleton. -/
def sdk : RewardSdk where
  fromSpend _ _ := .ok none
  parseSingleton _ := .ok none
  slotCoin _ _ _ _ _ := ⟨[], [], 0⟩

def constants : RewardDistributorConstants := ⟨[], 100⟩

/-- A node that knows no coin with a hint. -/
def emptyNode : RewardNode where
  coinRecordsByHint _ := .ok (some [])
  puzzleAndSolution _ _ := .ok none

/-- A node that knows a coin with the hint of every epoch, and the spend of its parent. -/
def hintedNode : RewardNode where
  coinRecordsByHint _ := .ok (some [⟨⟨[1], [2], 1⟩, 5⟩])
  puzzleAndSolution _ _ := .ok (some ⟨⟨[3], [4], 1⟩, .nil, .nil⟩)

theorem searchRound_empty (profile : Profile) (epochStart : ℕ) :
    searchRound sdk emptyNode constants profile epochStart
      = match profile.sub 64 epochStart 100 with
        | none => .inr .panicked
        | some epochStart => .inl epochStart := rfl

end RewardExample

open RewardExample in
/-- **Without a slot the search goes below zero**: it panics there, or goes on for ever.  A
coin of somebody else with the hint makes it panic. -/
theorem ends_fails :
    (∀ outcome, ¬ FindRewardSlot sdk emptyNode constants .release 1000 outcome) ∧
    FindRewardSlot sdk emptyNode constants .dev 1000 .panicked ∧
    FindRewardSlot sdk hintedNode constants .release 1000 .panicked ∧
    ¬ Ends sdk emptyNode constants .release 1000 ∧
    ¬ Ends sdk hintedNode constants .release 1000 := by
  have hempty : ∀ outcome, ¬ FindRewardSlot sdk emptyNode constants .release 1000 outcome := by
    intro outcome
    have hstep : ∀ epochStart, True → ∃ epochStart',
        searchRound sdk emptyNode constants .release epochStart = .inl epochStart' ∧ True := by
      intro epochStart _
      obtain ⟨next, hnext⟩ := Profile.exists_sub_release 64 epochStart 100
      rw [searchRound_empty, hnext]
      exact ⟨next, rfl, trivial⟩
    exact not_returns hstep trivial
  have hhinted : FindRewardSlot sdk hintedNode constants .release 1000 .panicked :=
    ⟨1, rfl⟩
  refine ⟨hempty, ⟨11, rfl⟩, hhinted, fun h => ?_, fun h => ?_⟩
  · obtain ⟨result, hreturns, -⟩ := h.returns
    exact hempty _ hreturns
  · obtain ⟨result, hreturns, -⟩ := h.returns
    cases hreturns.unique hhinted

end SlotMachine.Cli
