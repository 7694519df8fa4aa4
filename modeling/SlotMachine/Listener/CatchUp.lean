import SlotMachine.Cli.Outcome
import SlotMachine.Ledger.Loop
import SlotMachine.Listener.BlockFollow

/-!
# Catching up with the followed singletons

Before the listener waits for peaks it follows the singletons it knows of, pass by pass,
until their coins are unspent.  What it cannot follow it prints, and tries again.

* `catchUpPass` — one pass of `catch_up_followed_nfts` (`xchandles/listen.rs`).
* `Chain`, `Truthful` — a finite chain, and a node that answers from it.
* `onBlock_closer` — **a spend of the chain brings records closer to their end, or leaves
  them as they are**.
* `Stuck.fails` — where a pass gets nowhere, every call of `on_block` fails.
* `catchUp_ends_iff_followable` — launchers that are found and named catch up exactly if
  every spend on their way can be followed.
* `catchUp_ends_iff` — **when the passes come to an end**.
-/

namespace SlotMachine.Listener.CatchUp

open Cli (CliError)
open Loop (Returns Visits)

/-! ## The node -/

/-- `CoinRecord`. -/
structure CoinRecord where
  coin : Coin
  spent : Bool
  spentBlockIndex : ℕ

/-- `CoinsetClient`, as far as it is asked. -/
structure CoinsetClient (Spend : Type) where
  getCoinRecordsByNames : List Bytes → Except CliError (Option (List CoinRecord))
  getPuzzleAndSolution : Bytes → ℕ → Except CliError (Option Spend)

/-- `COINSET_NAMES_BATCH`. -/
def coinsetNamesBatch : ℕ := 500

/-- `chunks`, of `size + 1` each. -/
def chunks {α : Type} (size : ℕ) (xs : List α) : List (List α) :=
  if xs = [] then [] else xs.take (size + 1) :: chunks size (xs.drop (size + 1))
termination_by xs.length
decreasing_by
  have hpos : 0 < xs.length := List.length_pos_iff.2 ‹_›
  rw [List.length_drop]
  omega

/-! ## One pass -/

/-- The coin that is looked for: that of an active launcher which has not melted. -/
def liveCoin (store : SingletonStore) (launcher : Bytes) : Option Bytes :=
  match store launcher with
  | none => none
  | some record =>
      match record.status, record.current with
      | .active, some current => if current.melted then none else some current.coinId
      | _, _ => none

section

variable {Spend : Type} (D : Driver Spend) (client : CoinsetClient Spend)
variable (ids : SingletonStore → List Bytes)

/-- The spent ones among the coins, which the node is asked for batch by batch. -/
def spentRecords : List (List Bytes) → Except CliError (List CoinRecord)
  | [] => .ok []
  | batch :: batches =>
      match client.getCoinRecordsByNames batch with
      | .error e => .error e
      | .ok answer =>
          match spentRecords batches with
          | .error e => .error e
          | .ok spent => .ok ((answer.getD []).filter CoinRecord.spent ++ spent)

/-- The spends are followed one by one.  What `on_block` fails with is printed. -/
def followSpent : SingletonStore → List CoinRecord → Except CliError SingletonStore
  | store, [] => .ok store
  | store, record :: records =>
      match client.getPuzzleAndSolution (D.coinId record.coin) record.spentBlockIndex with
      | .error e => .error e
      | .ok none => .error (.coinNotSpent (D.coinId record.coin))
      | .ok (some spend) =>
          followSpent (onBlock D (ids store) record.spentBlockIndex [spend] store).1 records

/-- A pass of `catch_up_followed_nfts`; `ids` are `all_launcher_ids`, in the store's order. -/
def catchUpPass (store : SingletonStore) : SingletonStore ⊕ Except CliError SingletonStore :=
  match spentRecords client (chunks (coinsetNamesBatch - 1) ((ids store).filterMap
    (liveCoin store))) with
  | .error e => .inr (.error e)
  | .ok [] => .inr (.ok store)
  | .ok (record :: records) =>
      match followSpent D client ids store (record :: records) with
      | .error e => .inr (.error e)
      | .ok store' => .inl store'

end

/-! ## The chain -/

/-- A spend, with the height of its block. -/
structure ChainSpend (Spend : Type) where
  height : ℕ
  spend : Spend

section

variable {Spend : Type} (D : Driver Spend)

/-- The coin id of a spend. -/
def ChainSpend.coinId (s : ChainSpend Spend) : Bytes := D.coinId (D.coin s.spend)

/-- A finite chain: no coin is spent twice, and none before the spend that creates it. -/
structure Chain where
  spends : List (ChainSpend Spend)
  nodup : (spends.map (ChainSpend.coinId D)).Nodup
  afterParent : ∀ (i j : ℕ) (hi : i < spends.length) (hj : j < spends.length) (launcher : Bytes)
    (next : DiscoveredSingleton),
    D.followSingletonSpend spends[j].spend launcher = .ok (.next next) →
    spends[i].coinId D = D.coinId next.coin → j < i

/-- The coin is spent. -/
def Chain.Spends (chain : Chain D) (id : Bytes) : Prop :=
  ∃ s ∈ chain.spends, s.coinId D = id

/-- **The node tells the truth**: it has a record of every spent coin it is asked for, and
the records say which coins are spent and where. -/
structure Truthful (chain : Chain D) (client : CoinsetClient Spend) : Prop where
  records : ∀ names : List Bytes, names.length ≤ coinsetNamesBatch →
    ∃ records, client.getCoinRecordsByNames names = .ok (some records) ∧
      (∀ record ∈ records, record.spent = true →
        ∃ s ∈ chain.spends, s.coinId D = D.coinId record.coin ∧ D.coinId record.coin ∈ names ∧
          s.height = record.spentBlockIndex) ∧
      ∀ s ∈ chain.spends, s.coinId D ∈ names →
        ∃ record ∈ records, D.coinId record.coin = s.coinId D ∧ record.spent = true
  spend : ∀ s ∈ chain.spends,
    client.getPuzzleAndSolution (s.coinId D) s.height = .ok (some s.spend)

/-- The launchers of a store that has none but some are listed, each once. -/
def ListsKeys (keys : List Bytes) (ids : SingletonStore → List Bytes) : Prop :=
  ∀ store, (∀ l, store l ≠ none → l ∈ keys) →
    (ids store).Nodup ∧ ∀ l, l ∈ ids store ↔ store l ≠ none

/-- All coins that are looked for are unspent. -/
def AllUnspent (chain : Chain D) (store : SingletonStore) : Prop :=
  ∀ launcher, ∀ id ∈ liveCoin store launcher, ¬ chain.Spends D id

/-- **The loop ends**, with all coins unspent. -/
def Ends (chain : Chain D) (client : CoinsetClient Spend) (ids : SingletonStore → List Bytes)
    (store : SingletonStore) : Prop :=
  ∃ store', Returns (catchUpPass D client ids) store (.ok store') ∧ AllUnspent D chain store'

/-- **A pass gets nowhere**: a coin is spent, and for none that is does `on_block` change
anything. -/
structure Stuck (chain : Chain D) (ids : SingletonStore → List Bytes) (store : SingletonStore) :
    Prop where
  spent : ¬ AllUnspent D chain store
  unmoved : ∀ launcher, ∀ s ∈ chain.spends, liveCoin store launcher = some (s.coinId D) →
    (onBlock D (ids store) s.height [s.spend] store).1 = store

end

/-! ## How far a record is from its end -/

section

variable {Spend : Type} {D : Driver Spend} (chain : Chain D)

/-- How many spends of the chain may follow on a coin, its own included. -/
def coinRank (id : Bytes) : ℕ :=
  chain.spends.length - chain.spends.findIdx fun s => decide (s.coinId D = id)

/-- How many steps a record may take.  One that is not yet found may be found anywhere. -/
def weight : Option FollowedSingleton → ℕ
  | none => 0
  | some record =>
      match record.status, record.current with
      | .incomplete, _ => chain.spends.length + 2
      | .active, some current =>
          if current.melted then 1 else coinRank chain current.coinId + 1
      | _, _ => 1

/-- Every record is left as it is or closer to its end. -/
def Closer (store' store : SingletonStore) : Prop :=
  ∀ l, store' l = store l ∨ weight chain (store' l) < weight chain (store l)

variable {chain}

theorem coinRank_le (id : Bytes) : coinRank chain id ≤ chain.spends.length := Nat.sub_le _ _

theorem coinRank_pos {s : ChainSpend Spend} (hs : s ∈ chain.spends) :
    0 < coinRank chain (s.coinId D) := by
  have hlt : chain.spends.findIdx (fun t => decide (t.coinId D = s.coinId D))
      < chain.spends.length := List.findIdx_lt_length_of_exists ⟨s, hs, by simp⟩
  unfold coinRank
  omega

/-- **A child is closer to the end than its parent.** -/
theorem coinRank_child {s : ChainSpend Spend} (hs : s ∈ chain.spends) {launcher : Bytes}
    {next : DiscoveredSingleton}
    (hnext : D.followSingletonSpend s.spend launcher = .ok (.next next)) :
    coinRank chain (D.coinId next.coin) < coinRank chain (s.coinId D) := by
  have hpos := coinRank_pos hs
  unfold coinRank at hpos ⊢
  set i := chain.spends.findIdx fun t => decide (t.coinId D = D.coinId next.coin) with hi
  set j := chain.spends.findIdx fun t => decide (t.coinId D = s.coinId D) with hj
  have hjlt : j < chain.spends.length := by omega
  by_cases hilt : i < chain.spends.length
  · have hati : chain.spends[i].coinId D = D.coinId next.coin := by
      simpa using List.findIdx_getElem (w := hilt)
    have hatj : chain.spends[j].coinId D = s.coinId D := by
      simpa using List.findIdx_getElem (w := hjlt)
    have hsame : chain.spends[j] = s :=
      List.inj_on_of_nodup_map chain.nodup (List.getElem_mem hjlt) hs hatj
    rw [← hsame] at hnext
    have hlt := chain.afterParent i j hilt hjlt launcher next hnext hati
    omega
  · omega

theorem one_le_weight (record : FollowedSingleton) : 1 ≤ weight chain (some record) := by
  unfold weight
  dsimp only
  split
  · omega
  · split <;> omega
  · omega

theorem weight_active_le {record : FollowedSingleton} (h : record.status = .active) :
    weight chain (some record) ≤ chain.spends.length + 1 := by
  unfold weight
  dsimp only
  rw [h]
  cases hcurrent : record.current with
  | none => simp
  | some current =>
      have hle : coinRank chain current.coinId ≤ chain.spends.length := coinRank_le _
      dsimp only
      split <;> omega

theorem Closer.refl (store : SingletonStore) : Closer chain store store := fun _ => Or.inl rfl

theorem Closer.trans {s₁ s₂ s₃ : SingletonStore} (h₁ : Closer chain s₂ s₁)
    (h₂ : Closer chain s₃ s₂) : Closer chain s₃ s₁ := by
  intro l
  rcases h₂ l with heq | hlt
  · rw [heq]
    exact h₁ l
  · rcases h₁ l with heq' | hlt'
    · rw [heq'] at hlt
      exact Or.inr hlt
    · exact Or.inr (hlt.trans hlt')

/-- What is not there does not come. -/
theorem Closer.absent {store store' : SingletonStore} (h : Closer chain store' store) {l : Bytes}
    (hl : store l = none) : store' l = none := by
  rcases h l with heq | hlt
  · exact heq.trans hl
  · rw [hl] at hlt
    exact absurd hlt (Nat.not_lt_zero _)

end

/-! ## What a spend of the chain does -/

section

variable {Spend : Type} {D : Driver Spend} {chain : Chain D} {store : SingletonStore}
variable {launcher : Bytes} {record : FollowedSingleton} {s : ChainSpend Spend}

/-- The state after a spend is closer to the end than the coin. -/
theorem weight_stateAfterSpend (hs : s ∈ chain.spends)
    {result : FollowSpendResult} (hresult : D.followSingletonSpend s.spend launcher = .ok result)
    (hstatus : record.status = .active) (height : ℕ) :
    weight chain (some (pushReplacement record (stateAfterSpend D launcher height result) height))
      < coinRank chain (s.coinId D) + 1 := by
  have hpos := coinRank_pos hs
  unfold weight pushReplacement
  dsimp only
  rw [hstatus]
  cases result with
  | next next =>
      have hlt := coinRank_child hs hresult
      show (if false = true then 1 else coinRank chain (D.coinId next.coin) + 1) < _
      rw [if_neg Bool.false_ne_true]
      omega
  | melted lastCoin innerPuzzleHash nft =>
      show (if true = true then 1 else _) < _
      rw [if_pos rfl]
      omega

/-- **A spend of the chain brings a record closer to its end, or leaves it as it is.** -/
theorem stepRecord_closer (hs : s ∈ chain.spends)
    {record' : FollowedSingleton}
    (h : stepRecord D s.height [s.spend] launcher record = .ok record') :
    record' = record ∨ weight chain (some record') < weight chain (some record) := by
  rcases stepRecord_eq_ok D h with heq | ⟨hstatus, result, -, hcase⟩ |
    ⟨hstatus, current, hcurrent, hlive, spend, hspend, result, hresult, heq⟩
  · exact Or.inl heq
  · have hweight : weight chain (some record) = chain.spends.length + 2 := by
      unfold weight
      dsimp only
      rw [hstatus]
    rw [hweight]
    rcases hcase with ⟨found, -, rfl⟩ | ⟨-, rfl⟩
    · exact Or.inr (Nat.lt_succ_of_le (weight_active_le rfl))
    · exact Or.inr (Nat.succ_lt_succ (Nat.succ_pos _))
  · obtain rfl : spend = s.spend := List.mem_singleton.1 (List.mem_of_find?_eq_some hspend)
    have hcoin : s.coinId D = current.coinId := by
      have hfound := List.find?_some hspend
      exact eq_of_beq hfound
    have hweight : weight chain (some record) = coinRank chain (s.coinId D) + 1 := by
      unfold weight
      dsimp only
      rw [hstatus, Option.mem_def.1 hcurrent]
      simp [hlive, hcoin]
    rw [hweight, heq]
    exact Or.inr (weight_stateAfterSpend hs hresult hstatus _)

theorem stepLauncher_closer (hs : s ∈ chain.spends)
    (hkeyed : store.Keyed) (l : Bytes) :
    Closer chain (stepLauncher D s.height [s.spend] store l).1 store := by
  intro launcher
  rw [stepLauncher_apply D s.height [s.spend] hkeyed l launcher]
  split
  · cases hrecord : store launcher with
    | none => exact Or.inl rfl
    | some record =>
        rw [Option.map_some]
        unfold visitRecord
        cases hstep : stepRecord D s.height [s.spend] launcher record with
        | error e => exact Or.inl rfl
        | ok record' =>
            rcases stepRecord_closer hs hstep with rfl | hlt
            · exact Or.inl rfl
            · exact Or.inr hlt
  · exact Or.inl rfl

theorem forEach_stepLauncher_closer (hs : s ∈ chain.spends)
    (hkeyed : store.Keyed) (ids : List Bytes) :
    Closer chain (forEach (stepLauncher D s.height [s.spend]) store ids).1 store := by
  induction ids generalizing store with
  | nil => exact .refl store
  | cons l ids ih =>
      have hfirst := stepLauncher_closer hs hkeyed l
      have hkeyed' := keyed_stepLauncher D s.height [s.spend] hkeyed l
      unfold forEach
      cases hstep : stepLauncher D s.height [s.spend] store l with
      | mk store' error =>
          rw [hstep] at hfirst hkeyed'
          cases error with
          | some e => exact hfirst
          | none => exact hfirst.trans (ih hkeyed')

theorem cleanupFinalized_closer (peak : ℕ) : Closer chain (cleanupFinalized peak store) store := by
  intro l
  unfold cleanupFinalized
  cases hrecord : store l with
  | none => exact Or.inl rfl
  | some record =>
      rw [Option.filter_some]
      split
      · exact Or.inl rfl
      · exact Or.inr (one_le_weight record)

/-- **A block with a spend of the chain brings records closer to their end, or leaves them as
they are.** -/
theorem onBlock_closer (hs : s ∈ chain.spends) (hkeyed : store.Keyed)
    (ids : List Bytes) : Closer chain (onBlock D ids s.height [s.spend] store).1 store := by
  have hloop := forEach_stepLauncher_closer hs hkeyed ids
  unfold onBlock
  cases hrun : forEach (stepLauncher D s.height [s.spend]) store ids with
  | mk store' error =>
      rw [hrun] at hloop
      cases error with
      | some e => exact hloop
      | none => exact hloop.trans (cleanupFinalized_closer _)

/-! ## How far a store is from its end -/

variable (chain) in
/-- How many steps the records of some launchers may take. -/
def total (keys : List Bytes) (store : SingletonStore) : ℕ :=
  (keys.map fun l => weight chain (store l)).sum

/-- **A store is left as it is, or closer to its end.** -/
theorem Closer.eq_or_lt {store' : SingletonStore} (h : Closer chain store' store)
    {keys : List Bytes} (hkeys : ∀ l, store l ≠ none → l ∈ keys) :
    store' = store ∨ total chain keys store' < total chain keys store := by
  have hle : ∀ l, weight chain (store' l) ≤ weight chain (store l) := by
    intro l
    rcases h l with heq | hlt
    · rw [heq]
    · exact hlt.le
  by_cases hall : ∀ l ∈ keys, store' l = store l
  · refine Or.inl (funext fun l => ?_)
    by_cases hl : store l = none
    · rw [h.absent hl, hl]
    · exact hall l (hkeys l hl)
  · right
    push Not at hall
    obtain ⟨l, hl, hne⟩ := hall
    unfold total
    exact List.sum_lt_sum _ _ (fun i _ => hle i) ⟨l, hl, (h l).resolve_left hne⟩

end

/-! ## What the node answers -/

theorem flatten_chunks {α : Type} (size : ℕ) (xs : List α) : (chunks size xs).flatten = xs := by
  induction xs using chunks.induct size with
  | case1 => simp [chunks]
  | case2 xs hne ih =>
      rw [chunks, if_neg hne, List.flatten_cons, ih, List.take_append_drop]

theorem length_of_mem_chunks {α : Type} {size : ℕ} {xs : List α} {batch : List α}
    (h : batch ∈ chunks size xs) : batch.length ≤ size + 1 := by
  induction xs using chunks.induct size with
  | case1 => simp [chunks] at h
  | case2 xs hne ih =>
      rw [chunks, if_neg hne, List.mem_cons] at h
      rcases h with rfl | h
      · exact List.length_take_le _ _
      · exact ih h

section

variable {Spend : Type} {D : Driver Spend} {chain : Chain D} {client : CoinsetClient Spend}

variable (chain) in
/-- The records are those of the spent coins among some. -/
structure Found (names : List Bytes) (spent : List CoinRecord) : Prop where
  sound : ∀ record ∈ spent, ∃ s ∈ chain.spends, s.coinId D = D.coinId record.coin ∧
    D.coinId record.coin ∈ names ∧ s.height = record.spentBlockIndex
  complete : ∀ s ∈ chain.spends, s.coinId D ∈ names →
    ∃ record ∈ spent, D.coinId record.coin = s.coinId D

/-- **A truthful node finds the spent coins.** -/
theorem Truthful.exists_spent (h : Truthful D chain client) {batches : List (List Bytes)}
    (hbatches : ∀ batch ∈ batches, batch.length ≤ coinsetNamesBatch) :
    ∃ spent, spentRecords client batches = .ok spent ∧ Found chain batches.flatten spent := by
  induction batches with
  | nil => exact ⟨[], rfl, nofun, nofun⟩
  | cons batch batches ih =>
      obtain ⟨spent, hspent, hfound⟩ := ih fun b hb => hbatches b (List.mem_cons_of_mem _ hb)
      obtain ⟨records, hrecords, hsound, hcomplete⟩ :=
        h.records batch (hbatches batch List.mem_cons_self)
      refine ⟨records.filter CoinRecord.spent ++ spent, ?_, ?_, ?_⟩
      · simp only [spentRecords, hrecords, hspent, Option.getD_some]
      · intro record hmem
        rw [List.flatten_cons]
        rcases List.mem_append.1 hmem with hmem | hmem
        · obtain ⟨hrecord, hflag⟩ := List.mem_filter.1 hmem
          obtain ⟨s, hs, hcoin, hname, hheight⟩ := hsound record hrecord hflag
          exact ⟨s, hs, hcoin, List.mem_append_left _ hname, hheight⟩
        · obtain ⟨s, hs, hcoin, hname, hheight⟩ := hfound.sound record hmem
          exact ⟨s, hs, hcoin, List.mem_append_right _ hname, hheight⟩
      · intro s hs hname
        rw [List.flatten_cons] at hname
        rcases List.mem_append.1 hname with hname | hname
        · obtain ⟨record, hrecord, hcoin, hflag⟩ := hcomplete s hs hname
          exact ⟨record, List.mem_append_left _ (List.mem_filter.2 ⟨hrecord, hflag⟩), hcoin⟩
        · obtain ⟨record, hrecord, hcoin⟩ := hfound.complete s hs hname
          exact ⟨record, List.mem_append_right _ hrecord, hcoin⟩

end

/-! ## One pass with a truthful node -/

section

variable {Spend : Type} {D : Driver Spend} {chain : Chain D} {client : CoinsetClient Spend}
variable {ids : SingletonStore → List Bytes} {keys : List Bytes} {store : SingletonStore}

variable (chain) in
/-- A record of a coin that a launcher is at, and the spend of the coin. -/
def SpendOf (store : SingletonStore) (record : CoinRecord) (s : ChainSpend Spend) : Prop :=
  s ∈ chain.spends ∧ s.coinId D = D.coinId record.coin ∧ s.height = record.spentBlockIndex ∧
    ∃ launcher, liveCoin store launcher = some (s.coinId D)

theorem liveCoin_ne_none {launcher id : Bytes} (h : liveCoin store launcher = some id) :
    store launcher ≠ none := by
  intro hnone
  unfold liveCoin at h
  rw [hnone] at h
  cases h

/-- **What a pass asks the node**: the records of the spent coins, of which there are none
only if all coins are unspent. -/
theorem Truthful.spentOfStore (h : Truthful D chain client) (hids : ListsKeys keys ids)
    (hkeys : ∀ l, store l ≠ none → l ∈ keys) :
    ∃ spent, spentRecords client (chunks (coinsetNamesBatch - 1) ((ids store).filterMap
        (liveCoin store))) = .ok spent ∧
      (∀ record ∈ spent, ∃ s, SpendOf chain store record s) ∧
      (∀ launcher, ∀ s ∈ chain.spends, liveCoin store launcher = some (s.coinId D) →
        ∃ record ∈ spent, SpendOf chain store record s) := by
  obtain ⟨spent, hspent, hfound⟩ := h.exists_spent fun batch hbatch =>
    (length_of_mem_chunks hbatch).trans (Nat.le_refl 500)
  rw [flatten_chunks] at hfound
  have hname : ∀ id, id ∈ (ids store).filterMap (liveCoin store) ↔
      ∃ launcher, liveCoin store launcher = some id := by
    intro id
    rw [List.mem_filterMap]
    constructor
    · rintro ⟨launcher, -, hid⟩
      exact ⟨launcher, hid⟩
    · rintro ⟨launcher, hid⟩
      exact ⟨launcher, ((hids store hkeys).2 launcher).2 (liveCoin_ne_none hid), hid⟩
  refine ⟨spent, hspent, ?_, ?_⟩
  · intro record hrecord
    obtain ⟨s, hs, hcoin, hmem, hheight⟩ := hfound.sound record hrecord
    rw [← hcoin] at hmem
    exact ⟨s, hs, hcoin, hheight, (hname _).1 hmem⟩
  · intro launcher s hs hlive
    obtain ⟨record, hrecord, hcoin⟩ := hfound.complete s hs ((hname _).2 ⟨launcher, hlive⟩)
    obtain ⟨s', hs', hcoin', -, hheight⟩ := hfound.sound record hrecord
    obtain rfl : s' = s := List.inj_on_of_nodup_map chain.nodup hs' hs (hcoin'.trans hcoin)
    exact ⟨record, hrecord, hs, hcoin.symm, hheight, launcher, hlive⟩

theorem Truthful.spendOf (h : Truthful D chain client) {record : CoinRecord}
    {s : ChainSpend Spend} (hs : SpendOf chain store record s) :
    client.getPuzzleAndSolution (D.coinId record.coin) record.spentBlockIndex
      = .ok (some s.spend) := by
  obtain ⟨hmem, hcoin, hheight, -⟩ := hs
  rw [← hcoin, ← hheight]
  exact h.spend s hmem

/-- The calls of `on_block` of a pass. -/
def followAll (D : Driver Spend) (ids : SingletonStore → List Bytes) (store : SingletonStore)
    (spends : List (ChainSpend Spend)) : SingletonStore :=
  spends.foldl (fun store s => (onBlock D (ids store) s.height [s.spend] store).1) store

/-- **The records are followed one by one.** -/
theorem Truthful.exists_followed (h : Truthful D chain client) {asked : SingletonStore}
    {spent : List CoinRecord} (hspent : ∀ record ∈ spent, ∃ s, SpendOf chain asked record s) :
    ∃ spends : List (ChainSpend Spend),
      (∀ s ∈ spends, ∃ record ∈ spent, SpendOf chain asked record s) ∧
      (∀ record ∈ spent, ∃ s ∈ spends, SpendOf chain asked record s) ∧
      ∀ store, followSpent D client ids store spent = .ok (followAll D ids store spends) := by
  induction spent with
  | nil => exact ⟨[], nofun, nofun, fun _ => rfl⟩
  | cons record spent ih =>
      obtain ⟨s, hs⟩ := hspent record List.mem_cons_self
      obtain ⟨spends, hof, hall, hfollow⟩ := ih fun r hr => hspent r (List.mem_cons_of_mem _ hr)
      refine ⟨s :: spends, ?_, ?_, fun store => ?_⟩
      · intro t ht
        rcases List.mem_cons.1 ht with rfl | ht
        · exact ⟨record, List.mem_cons_self, hs⟩
        · obtain ⟨r, hr, hrt⟩ := hof t ht
          exact ⟨r, List.mem_cons_of_mem _ hr, hrt⟩
      · intro r hr
        rcases List.mem_cons.1 hr with rfl | hr
        · exact ⟨s, List.mem_cons_self, hs⟩
        · obtain ⟨t, ht, hrt⟩ := hall r hr
          exact ⟨t, List.mem_cons_of_mem _ ht, hrt⟩
      · have hget := h.spendOf hs
        have hheight : s.height = record.spentBlockIndex := hs.2.2.1
        simp only [followSpent, hget]
        rw [hfollow, ← hheight]
        rfl

/-- **What a pass does**: it ends where all coins are unspent, or calls `on_block` for the
spends of all spent coins. -/
theorem catchUpPass_cases (h : Truthful D chain client) (hids : ListsKeys keys ids)
    (hkeys : ∀ l, store l ≠ none → l ∈ keys) :
    (AllUnspent D chain store ∧ catchUpPass D client ids store = .inr (.ok store)) ∨
    ∃ spends : List (ChainSpend Spend),
      catchUpPass D client ids store = .inl (followAll D ids store spends) ∧ spends ≠ [] ∧
      (∀ s ∈ spends, s ∈ chain.spends ∧
        ∃ launcher, liveCoin store launcher = some (s.coinId D)) ∧
      ∀ launcher, ∀ s ∈ chain.spends, liveCoin store launcher = some (s.coinId D) →
        s ∈ spends := by
  obtain ⟨spent, hspent, hsound, hcomplete⟩ := h.spentOfStore hids hkeys
  obtain ⟨spends, hof, hall, hfollow⟩ := h.exists_followed hsound
  unfold catchUpPass
  rw [hspent]
  cases spent with
  | nil =>
      refine Or.inl ⟨fun launcher id hid hspend => ?_, rfl⟩
      obtain ⟨s, hs, rfl⟩ := hspend
      obtain ⟨record, hrecord, -⟩ := hcomplete launcher s hs hid
      exact List.not_mem_nil hrecord
  | cons record records =>
      refine Or.inr ⟨spends, ?_, ?_, ?_, ?_⟩
      · dsimp only
        rw [hfollow store]
      · obtain ⟨s, hs, -⟩ := hall record List.mem_cons_self
        exact List.ne_nil_of_mem hs
      · intro s hs
        obtain ⟨r, -, hrs⟩ := hof s hs
        exact ⟨hrs.1, hrs.2.2.2⟩
      · intro launcher s hs hlive
        obtain ⟨r, hr, hrs⟩ := hcomplete launcher s hs hlive
        obtain ⟨t, ht, hrt⟩ := hall r hr
        obtain rfl : t = s := List.inj_on_of_nodup_map chain.nodup hrt.1 hrs.1
          (hrt.2.1.trans hrs.2.1.symm)
        exact ht

/-! ## All passes -/

variable (chain) in
/-- What the passes keep: the store is keyed, and has no other launchers than some. -/
structure Kept (keys : List Bytes) (store : SingletonStore) : Prop where
  keyed : store.Keyed
  keys : ∀ l, store l ≠ none → l ∈ keys

theorem Closer.within {store' : SingletonStore} (h : Closer chain store' store)
    (hkeys : ∀ l, store l ≠ none → l ∈ keys) (l : Bytes)
    (hl : store' l ≠ none) : l ∈ keys :=
  hkeys l fun hnone => hl (h.absent hnone)

variable (ids) in
theorem followAll_closer {spends : List (ChainSpend Spend)}
    (hspends : ∀ s ∈ spends, s ∈ chain.spends) (hkeyed : store.Keyed) :
    Closer chain (followAll D ids store spends) store ∧ (followAll D ids store spends).Keyed := by
  induction spends generalizing store with
  | nil => exact ⟨.refl store, hkeyed⟩
  | cons s spends ih =>
      have hfirst := onBlock_closer (hspends s List.mem_cons_self) hkeyed (ids store)
      have hkeyed' : (onBlock D (ids store) s.height [s.spend] store).1.Keyed :=
        keyed_onBlock hkeyed
      obtain ⟨hcloser, hkept⟩ := ih (fun t ht => hspends t (List.mem_cons_of_mem _ ht)) hkeyed'
      exact ⟨hfirst.trans hcloser, hkept⟩

/-- **The calls of a pass change something if one of them does.** -/
theorem followAll_eq_self (hkept : Kept keys store)
    {spends : List (ChainSpend Spend)} (hspends : ∀ s ∈ spends, s ∈ chain.spends) :
    followAll D ids store spends = store ↔
      ∀ s ∈ spends, (onBlock D (ids store) s.height [s.spend] store).1 = store := by
  induction spends with
  | nil => exact ⟨fun _ => nofun, fun _ => rfl⟩
  | cons s spends ih =>
      have hrest := ih fun t ht => hspends t (List.mem_cons_of_mem _ ht)
      rw [List.forall_mem_cons, ← hrest]
      have hcons : followAll D ids store (s :: spends)
          = followAll D ids (onBlock D (ids store) s.height [s.spend] store).1 spends := rfl
      rw [hcons]
      constructor
      · intro hself
        have hfirst := onBlock_closer (hspends s List.mem_cons_self) hkept.keyed
          (ids store)
        have hkeyed' : (onBlock D (ids store) s.height [s.spend] store).1.Keyed :=
          keyed_onBlock hkept.keyed
        obtain ⟨hlater, -⟩ := followAll_closer ids
          (fun t ht => hspends t (List.mem_cons_of_mem _ ht)) hkeyed'
        rw [hself] at hlater
        rcases hfirst.eq_or_lt hkept.keys with heq | hlt
        · rw [heq] at hself
          exact ⟨heq, hself⟩
        · rcases hlater.eq_or_lt (hfirst.within hkept.keys) with heq | hlt'
          · rw [← heq] at hlt
            exact absurd hlt (lt_irrefl _)
          · exact absurd (hlt.trans hlt') (lt_irrefl _)
      · rintro ⟨hfirst, hothers⟩
        rw [hfirst, hothers]

/-- **A pass that does nothing starts where the passes get stuck.** -/
theorem catchUpPass_eq_self (h : Truthful D chain client)
    (hids : ListsKeys keys ids) (hkept : Kept keys store) :
    catchUpPass D client ids store = .inl store ↔ Stuck D chain ids store := by
  rcases catchUpPass_cases h hids hkept.keys with ⟨hunspent, hpass⟩ |
    ⟨spends, hpass, hne, hsound, hcomplete⟩
  · rw [hpass]
    exact ⟨nofun, fun hstuck => absurd hunspent hstuck.spent⟩
  · rw [hpass, Sum.inl.injEq, followAll_eq_self hkept fun s hs => (hsound s hs).1]
    constructor
    · intro hself
      refine ⟨fun hunspent => ?_, fun launcher s hs hlive =>
        hself s (hcomplete launcher s hs hlive)⟩
      obtain ⟨s, hs⟩ := List.exists_mem_of_ne_nil spends hne
      obtain ⟨hmem, launcher, hlive⟩ := hsound s hs
      exact hunspent launcher _ hlive ⟨s, hmem, rfl⟩
    · intro hstuck s hs
      obtain ⟨hmem, launcher, hlive⟩ := hsound s hs
      exact hstuck.unmoved launcher s hmem hlive

/-- What the passes keep, and that each brings the store closer to its end or does nothing. -/
theorem Kept.pass (h : Truthful D chain client) (hids : ListsKeys keys ids)
    (hkept : Kept keys store) {store' : SingletonStore}
    (hpass : catchUpPass D client ids store = .inl store') :
    Kept keys store' ∧ (store' = store ∨ total chain keys store' < total chain keys store) := by
  rcases catchUpPass_cases h hids hkept.keys with ⟨-, hpass'⟩ | ⟨spends, hpass', -, hsound, -⟩
  · rw [hpass'] at hpass
    cases hpass
  · rw [hpass', Sum.inl.injEq] at hpass
    obtain ⟨hcloser, hkeyed⟩ := followAll_closer ids
      (fun s hs => (hsound s hs).1) hkept.keyed
    rw [hpass] at hcloser hkeyed
    exact ⟨⟨hkeyed, hcloser.within hkept.keys⟩, hcloser.eq_or_lt hkept.keys⟩

/-- Where the passes end, all coins are unspent. -/
theorem ends_of_returns (h : Truthful D chain client)
    (hids : ListsKeys keys ids) (hkept : Kept keys store)
    {result : Except CliError SingletonStore}
    (hreturns : Returns (catchUpPass D client ids) store result) :
    Ends D chain client ids store := by
  have hstep : ∀ s s', Kept keys s → catchUpPass D client ids s = .inl s' →
      Kept keys s' := fun s s' hs hpass => (hs.pass h hids hpass).1
  obtain ⟨s', hs', hlast⟩ := hreturns.last hstep hkept
  rcases catchUpPass_cases h hids hs'.keys with ⟨hunspent, hpass⟩ | ⟨spends, hpass, -⟩
  · rw [hpass, Sum.inr.injEq] at hlast
    rw [← hlast] at hreturns
    exact ⟨s', hreturns, hunspent⟩
  · rw [hpass] at hlast
    cases hlast

/-- **When the passes come to an end**: none of them starts where they are stuck. -/
theorem returns_iff (h : Truthful D chain client) (hids : ListsKeys keys ids)
    (hkept : Kept keys store) :
    (∃ result, Returns (catchUpPass D client ids) store result) ↔
      ∀ store', Visits (catchUpPass D client ids) store store' → ¬ Stuck D chain ids store' := by
  rw [Loop.returns_iff_of_measure (total chain keys)
    (fun s s' hs hpass => hs.pass h hids hpass) hkept]
  refine forall_congr' fun store' => imp_congr_right fun hvisits => ?_
  have hkept' := hvisits.keep (fun s s' hs hpass => (hs.pass h hids hpass).1) hkept
  exact not_congr (catchUpPass_eq_self h hids hkept')

end

/-! ## The way of a launcher -/

section

variable {Spend : Type} (D : Driver Spend) (chain : Chain D)

/-- A spend that can be followed takes a launcher from one coin to the next. -/
def Next (launcher id id' : Bytes) : Prop :=
  ∃ s ∈ chain.spends, s.coinId D = id ∧ ∃ next,
    D.followSingletonSpend s.spend launcher = .ok (.next next) ∧ id' = D.coinId next.coin

/-- Every spend on the way of a launcher from a coin can be followed. -/
def FollowableFrom (launcher : Bytes) (o : Option Bytes) : Prop :=
  ∀ id ∈ o, ∀ s ∈ chain.spends,
    Relation.ReflTransGen (Next D chain launcher) id (s.coinId D) →
    ∃ result, D.followSingletonSpend s.spend launcher = .ok result

/-- Every spend on the way of a launcher can be followed. -/
def Followable (store : SingletonStore) : Prop :=
  ∀ launcher, FollowableFrom D chain launcher (liveCoin store launcher)

/-- A launcher is on its way to a coin. -/
def Toward (launcher target l : Bytes) (o : Option Bytes) : Prop :=
  l = launcher → ∃ id ∈ o, Relation.ReflTransGen (Next D chain launcher) id target

/-- All launchers are found, and are named by slots. -/
def Settled (store : SingletonStore) : Prop :=
  ∀ l, ∀ record ∈ store l, record.status ≠ .incomplete ∧ record.referenceCount ≠ 0

/-- The coin that a launcher is at after a spend. -/
def coinAfter : FollowSpendResult → Option Bytes
  | .next next => some (D.coinId next.coin)
  | .melted _ _ _ => none

end

section

variable {Spend : Type} {D : Driver Spend} {chain : Chain D} {client : CoinsetClient Spend}
variable {ids : SingletonStore → List Bytes} {keys : List Bytes} {store : SingletonStore}
variable {s : ChainSpend Spend}
variable {launcher id : Bytes} {record : FollowedSingleton}

theorem liveCoin_eq_some : liveCoin store launcher = some id ↔
    ∃ record, store launcher = some record ∧ record.status = .active ∧
      ∃ current, record.current = some current ∧ current.melted = false ∧
        current.coinId = id := by
  unfold liveCoin
  cases hrecord : store launcher with
  | none => simp
  | some record =>
      cases hstatus : record.status with
      | incomplete => simp [hstatus]
      | mismatch => simp [hstatus]
      | active =>
          cases hcurrent : record.current with
          | none => simp [hstatus, hcurrent]
          | some current => cases hmelted : current.melted <;> simp [hstatus, hcurrent, hmelted]

/-- The step of a launcher in a block with one spend. -/
theorem stepRecord_of_ne (hstatus : record.status ≠ .incomplete)
    (hcoin : ∀ current ∈ record.current, record.status = .active → current.melted = false →
      current.coinId ≠ s.coinId D) :
    stepRecord D s.height [s.spend] launcher record = .ok record := by
  cases hstatus' : record.status with
  | incomplete => exact absurd hstatus' hstatus
  | mismatch =>
      unfold stepRecord
      rw [hstatus']
  | active =>
      cases hcurrent : record.current with
      | none =>
          unfold stepRecord
          rw [hstatus', hcurrent]
      | some current =>
          cases hmelted : current.melted with
          | true =>
              unfold stepRecord
              rw [hstatus', hcurrent]
              simp [hmelted]
          | false =>
              have hne := hcoin current hcurrent hstatus' hmelted
              rw [stepRecord_active _ _ _ _ hstatus' hcurrent hmelted,
                (spendOf_eq_none hmelted).2]
              refine Or.inr fun spend hspend => ?_
              rw [List.mem_singleton.1 hspend]
              exact hne.symm

variable (launcher) in
theorem stepRecord_of_eq (hstatus : record.status = .active) {current : StoredSingletonState}
    (hcurrent : record.current = some current) (hlive : current.melted = false)
    (hcoin : current.coinId = s.coinId D) :
    stepRecord D s.height [s.spend] launcher record
      = (D.followSingletonSpend s.spend launcher).map fun result =>
          pushReplacement record (stateAfterSpend D launcher s.height result) s.height := by
  have hspend : spendOf D [s.spend] current = some s.spend := by
    refine List.find?_cons_of_pos ?_
    rw [beq_iff_eq]
    exact hcoin.symm
  rw [stepRecord_active _ _ _ _ hstatus hcurrent hlive, hspend]

variable (D s launcher) in
/-- A record is left as it is, or is at the coin and follows its spend. -/
theorem visitRecord_cases (hstatus : record.status ≠ .incomplete) :
    visitRecord D s.height [s.spend] launcher record = record ∨
    (record.status = .active ∧ ∃ current, record.current = some current ∧
      current.melted = false ∧ current.coinId = s.coinId D ∧
      ∃ result, D.followSingletonSpend s.spend launcher = .ok result ∧
        visitRecord D s.height [s.spend] launcher record
          = pushReplacement record (stateAfterSpend D launcher s.height result) s.height) := by
  by_cases hat : ∃ current, record.current = some current ∧ record.status = .active ∧
      current.melted = false ∧ current.coinId = s.coinId D
  · obtain ⟨current, hcurrent, hactive, hlive, hcoin⟩ := hat
    have hstep := stepRecord_of_eq launcher hactive hcurrent hlive hcoin
    unfold visitRecord
    rw [hstep]
    cases hfollow : D.followSingletonSpend s.spend launcher with
    | error e => exact Or.inl rfl
    | ok result => exact Or.inr ⟨hactive, current, hcurrent, hlive, hcoin, result, rfl, rfl⟩
  · left
    have hstep : stepRecord D s.height [s.spend] launcher record = .ok record :=
      stepRecord_of_ne hstatus fun current hcurrent hactive hlive hcoin =>
        hat ⟨current, hcurrent, hactive, hlive, hcoin⟩
    unfold visitRecord
    rw [hstep]

/-- The coin of a record after a spend. -/
theorem liveCoin_pushReplacement (hstatus : record.status = .active) (height : ℕ)
    (result : FollowSpendResult)
    (hrecord : store launcher = some (pushReplacement record
      (stateAfterSpend D launcher height result) height)) :
    liveCoin store launcher = coinAfter D result := by
  have hstatus' : (pushReplacement record (stateAfterSpend D launcher height result)
      height).status = .active := hstatus
  unfold liveCoin
  rw [hrecord]
  dsimp only
  rw [hstatus']
  cases result <;> rfl

theorem onBlock_absent {height : ℕ} {spends : List Spend} (hkeyed : store.Keyed)
    (hnodup : keys.Nodup) (hnone : store launcher = none) :
    (onBlock D keys height spends store).1 launcher = none := by
  have hloop := (forEach_stepLauncher_apply D height spends hkeyed hnodup).1 launcher
  rw [hnone, Option.map_none, ite_self] at hloop
  unfold onBlock
  cases hrun : forEach (stepLauncher D height spends) store keys with
  | mk store' error =>
      rw [hrun] at hloop
      dsimp only at hloop
      cases error with
      | some e => exact hloop
      | none =>
          show Option.filter _ (store' launcher) = none
          rw [hloop]
          rfl

/-- A launcher that slots name is not removed. -/
theorem onBlock_referenced (D : Driver Spend) (height : ℕ) (spends : List Spend)
    (hkeyed : store.Keyed) (hnodup : keys.Nodup) (hrecord : store launcher = some record)
    (hcount : record.referenceCount ≠ 0) :
    (onBlock D keys height spends store).1 launcher = some record ∨
      (onBlock D keys height spends store).1 launcher
        = some (visitRecord D height spends launcher record) := by
  rw [onBlock_apply hkeyed hnodup hrecord fun hfinal => hcount hfinal.1]
  split
  · exact Or.inr rfl
  · exact Or.inl rfl

/-- **What a spend does to the coins of found launchers**: one that is at the coin goes on to
the next, if the spend can be followed. -/
theorem onBlock_settled (hsettled : Settled store) (hkeyed : store.Keyed)
    (hnodup : keys.Nodup) : Settled (onBlock D keys s.height [s.spend] store).1 ∧
      ∀ launcher, liveCoin (onBlock D keys s.height [s.spend] store).1 launcher
          = liveCoin store launcher ∨
        ∃ result, liveCoin store launcher = some (s.coinId D) ∧
          D.followSingletonSpend s.spend launcher = .ok result ∧
          liveCoin (onBlock D keys s.height [s.spend] store).1 launcher = coinAfter D result := by
  have hcases : ∀ l, (onBlock D keys s.height [s.spend] store).1 l = store l ∨
      ∃ record result, store l = some record ∧ record.status = .active ∧
        record.referenceCount ≠ 0 ∧ liveCoin store l = some (s.coinId D) ∧
        D.followSingletonSpend s.spend l = .ok result ∧
        (onBlock D keys s.height [s.spend] store).1 l
          = some (pushReplacement record (stateAfterSpend D l s.height result) s.height) := by
    intro l
    cases hrecord : store l with
    | none => exact Or.inl (onBlock_absent hkeyed hnodup hrecord)
    | some record =>
        obtain ⟨hstatus, hcount⟩ := hsettled l record hrecord
        rcases onBlock_referenced D s.height [s.spend] hkeyed hnodup
          hrecord hcount with heq | heq
        · exact Or.inl heq
        · rw [heq]
          rcases visitRecord_cases D s l hstatus with hsame |
            ⟨hactive, current, hcurrent, hlive, hcoin, result, hfollow, hvisit⟩
          · exact Or.inl (congrArg some hsame)
          · refine Or.inr ⟨record, result, rfl, hactive, hcount, ?_, hfollow, congrArg some hvisit⟩
            exact liveCoin_eq_some.2 ⟨record, hrecord, hactive, current, hcurrent, hlive, hcoin⟩
  constructor
  · intro l record' hrecord'
    rcases hcases l with heq | ⟨record, result, -, hactive, hcount, -, -, heq⟩
    · exact hsettled l record' (heq.symm.trans hrecord')
    · obtain rfl := Option.some.inj (heq.symm.trans hrecord')
      refine ⟨fun hincomplete => ?_, hcount⟩
      cases hactive.symm.trans hincomplete
  · intro l
    rcases hcases l with heq | ⟨record, result, -, hactive, -, hlive, hfollow, heq⟩
    · left
      unfold liveCoin
      rw [heq]
    · exact Or.inr ⟨result, hlive, hfollow, liveCoin_pushReplacement hactive _ _ heq⟩

/-! ## The way through the passes -/

/-- What launchers that slots name keep: they are found, and a property that is one of the
coins they are at. -/
structure Way (P : Bytes → Option Bytes → Prop) (store : SingletonStore) : Prop where
  settled : Settled store
  keyed : store.Keyed
  coins : ∀ l, P l (liveCoin store l)

theorem Way.onBlock {P : Bytes → Option Bytes → Prop}
    (hstep : ∀ l result, P l (some (s.coinId D)) →
      D.followSingletonSpend s.spend l = .ok result → P l (coinAfter D result))
    (h : Way P store) (hnodup : keys.Nodup) :
    Way P (Listener.onBlock D keys s.height [s.spend] store).1 := by
  obtain ⟨hsettled, hcoins⟩ := onBlock_settled (s := s) h.settled h.keyed hnodup
  refine ⟨hsettled, keyed_onBlock h.keyed, fun l => ?_⟩
  have hl := h.coins l
  rcases hcoins l with heq | ⟨result, hlive, hfollow, heq⟩
  · rwa [heq]
  · rw [heq]
    rw [hlive] at hl
    exact hstep l result hl hfollow

theorem Way.followAll {P : Bytes → Option Bytes → Prop}
    (hstep : ∀ s ∈ chain.spends, ∀ l result, P l (some (s.coinId D)) →
      D.followSingletonSpend s.spend l = .ok result → P l (coinAfter D result))
    (hids : ListsKeys keys ids)
    {spends : List (ChainSpend Spend)} (hspends : ∀ s ∈ spends, s ∈ chain.spends)
    (hkeys : ∀ l, store l ≠ none → l ∈ keys) (h : Way P store) :
    Way P (CatchUp.followAll D ids store spends) := by
  induction spends generalizing store with
  | nil => exact h
  | cons s spends ih =>
      have hs := hspends s List.mem_cons_self
      have hcloser := onBlock_closer hs h.keyed (ids store)
      exact ih (fun t ht => hspends t (List.mem_cons_of_mem _ ht)) (hcloser.within hkeys)
        (h.onBlock (hstep s hs) (hids store hkeys).1)

theorem Way.pass {P : Bytes → Option Bytes → Prop}
    (hstep : ∀ s ∈ chain.spends, ∀ l result, P l (some (s.coinId D)) →
      D.followSingletonSpend s.spend l = .ok result → P l (coinAfter D result))
    (htruthful : Truthful D chain client) (hids : ListsKeys keys ids)
    {store' : SingletonStore} (h : Kept keys store ∧ Way P store)
    (hpass : catchUpPass D client ids store = .inl store') :
    Kept keys store' ∧ Way P store' := by
  obtain ⟨hkept, hway⟩ := h
  refine ⟨(hkept.pass htruthful hids hpass).1, ?_⟩
  rcases catchUpPass_cases htruthful hids hkept.keys with ⟨-, hpass'⟩ |
    ⟨spends, hpass', -, hsound, -⟩
  · rw [hpass'] at hpass
    cases hpass
  · rw [hpass', Sum.inl.injEq] at hpass
    rw [← hpass]
    exact hway.followAll hstep hids (fun s hs => (hsound s hs).1) hkept.keys

/-- **A launcher whose spend is followed comes closer to its end.** -/
theorem weight_visitRecord_lt (hs : s ∈ chain.spends) (hactive : record.status = .active)
    {current : StoredSingletonState} (hcurrent : record.current = some current)
    (hmelted : current.melted = false) (hcoin : current.coinId = s.coinId D)
    {result : FollowSpendResult} (hfollow : D.followSingletonSpend s.spend launcher = .ok result) :
    weight chain (some (visitRecord D s.height [s.spend] launcher record))
      < weight chain (some record) := by
  have hvisit : visitRecord D s.height [s.spend] launcher record
      = pushReplacement record (stateAfterSpend D launcher s.height result) s.height := by
    unfold visitRecord
    rw [stepRecord_of_eq launcher hactive hcurrent hmelted hcoin, hfollow]
    rfl
  have hweight : weight chain (some record) = coinRank chain (s.coinId D) + 1 := by
    unfold weight
    dsimp only
    rw [hactive, hcurrent]
    simp [hmelted, hcoin]
  rw [hvisit, hweight]
  exact weight_stateAfterSpend hs hfollow hactive s.height

/-- **Where the passes are stuck, every call of `on_block` fails.** -/
theorem Stuck.fails (h : Stuck D chain ids store) (hkeyed : store.Keyed)
    (hnodup : (ids store).Nodup) (hlisted : launcher ∈ ids store) (hs : s ∈ chain.spends)
    (hlive : liveCoin store launcher = some (s.coinId D)) :
    ∃ l ∈ ids store, launcherFails D s.height [s.spend] store l = true := by
  by_contra hnone
  push Not at hnone
  have hok : ∀ l ∈ ids store, launcherFails D s.height [s.spend] store l = false :=
    fun l hl => Bool.eq_false_iff.2 (hnone l hl)
  obtain ⟨happly, hsnd⟩ := forEach_stepLauncher_apply D s.height [s.spend] hkeyed hnodup
  have hloop := happly launcher
  rw [visitedLaunchers_eq hok, if_pos hlisted] at hloop
  have hself := congrFun (h.unmoved launcher s hs hlive) launcher
  obtain ⟨record, hrecord, hactive, current, hcurrent, hmelted, hcoin⟩ := liveCoin_eq_some.1 hlive
  have hlauncher := hok launcher hlisted
  unfold launcherFails at hlauncher
  rw [hrecord] at hlauncher hloop hself
  dsimp only at hlauncher
  rw [stepRecord_of_eq launcher hactive hcurrent hmelted hcoin] at hlauncher
  cases hfollow : D.followSingletonSpend s.spend launcher with
  | error e =>
      rw [hfollow] at hlauncher
      cases hlauncher
  | ok result =>
      have hlt : weight chain (some (visitRecord D s.height [s.spend] launcher record))
          < weight chain (some record) :=
        weight_visitRecord_lt hs hactive hcurrent hmelted hcoin hfollow
      rw [Option.map_some] at hloop
      have hnofail := hsnd.2 hok
      unfold Listener.onBlock at hself
      cases hrun : forEach (stepLauncher D s.height [s.spend]) store (ids store) with
      | mk store₁ error =>
          rw [hrun] at hloop hnofail hself
          dsimp only at hloop hnofail
          subst hnofail
          dsimp only at hself
          have hcleanup : Closer chain (cleanupFinalized s.height store₁) store₁ :=
            cleanupFinalized_closer s.height
          rcases hcleanup launcher with heq | hlt'
          · rw [hself, hloop] at heq
            rw [← heq] at hlt
            exact lt_irrefl _ hlt
          · rw [hself, hloop] at hlt'
            exact lt_irrefl _ (hlt.trans hlt')

/-- The spend that a launcher comes to cannot be followed. -/
theorem not_ends (htruthful : Truthful D chain client)
    (hids : ListsKeys keys ids) (hkept : Kept keys store)
    (hsettled : Settled store) (hlive : liveCoin store launcher = some id)
    (hs : s ∈ chain.spends)
    (hway : Relation.ReflTransGen (Next D chain launcher) id (s.coinId D))
    (hfails : ∀ result, D.followSingletonSpend s.spend launcher ≠ .ok result) :
    ¬ Ends D chain client ids store := by
  have huniq : ∀ t ∈ chain.spends, ∀ t' ∈ chain.spends, t.coinId D = t'.coinId D → t = t' :=
    fun t ht t' ht' heq => List.inj_on_of_nodup_map chain.nodup ht ht' heq
  -- the launcher stays on its way to the spend
  have hstep : ∀ t ∈ chain.spends, ∀ l result,
      Toward D chain launcher (s.coinId D) l (some (t.coinId D)) →
      D.followSingletonSpend t.spend l = .ok result →
      Toward D chain launcher (s.coinId D) l (coinAfter D result) := by
    rintro t ht l result hbefore hfollow rfl
    obtain ⟨id, hid, hleads⟩ := hbefore rfl
    obtain rfl := Option.some.inj hid
    rcases hleads.cases_head with heq | ⟨c, ⟨t', ht', hcoin, next, hnext, rfl⟩, hrest⟩
    · obtain rfl := huniq t ht s hs heq
      exact absurd hfollow (hfails result)
    · obtain rfl := huniq t' ht' t ht hcoin
      obtain rfl := Except.ok.inj (hfollow.symm.trans hnext)
      exact ⟨_, rfl, hrest⟩
  rintro ⟨store', hreturns, hunspent⟩
  have hstart : Way (Toward D chain launcher (s.coinId D)) store := by
    refine ⟨hsettled, hkept.keyed, fun l hl => ?_⟩
    rw [hl]
    exact ⟨id, hlive, hway⟩
  obtain ⟨last, ⟨hkept', hway'⟩, hlast⟩ := hreturns.last
    (fun s s' hs hpass => Way.pass hstep htruthful hids hs hpass) ⟨hkept, hstart⟩
  rcases catchUpPass_cases htruthful hids hkept'.keys with ⟨-, hpass⟩ | ⟨spends, hpass, -⟩
  · rw [hpass, Sum.inr.injEq, Except.ok.injEq] at hlast
    subst hlast
    obtain ⟨id', hid', hleads⟩ := hway'.coins launcher rfl
    refine hunspent launcher id' hid' ?_
    rcases hleads.cases_head with rfl | ⟨c, ⟨t, ht, hcoin, -⟩, -⟩
    · exact ⟨s, hs, rfl⟩
    · exact ⟨t, ht, hcoin⟩
  · rw [hpass] at hlast
    cases hlast

/-- No call of `on_block` fails if the launchers at the coin can follow its spend. -/
theorem launcherFails_eq_false (hsettled : Settled store)
    (hfollow : liveCoin store launcher = some (s.coinId D) →
      ∃ result, D.followSingletonSpend s.spend launcher = .ok result) :
    launcherFails D s.height [s.spend] store launcher = false := by
  unfold launcherFails
  cases hrecord : store launcher with
  | none => rfl
  | some record =>
      dsimp only
      by_cases hlive : liveCoin store launcher = some (s.coinId D)
      · obtain ⟨result, hresult⟩ := hfollow hlive
        obtain ⟨record', hrecord', hactive, current, hcurrent, hmelted, hcoin⟩ :=
          liveCoin_eq_some.1 hlive
        obtain rfl := Option.some.inj (hrecord.symm.trans hrecord')
        rw [stepRecord_of_eq launcher hactive hcurrent hmelted hcoin, hresult]
        rfl
      · rw [stepRecord_of_ne (hsettled launcher record hrecord).1]
        intro current hcurrent hactive hmelted hcoin
        exact hlive (liveCoin_eq_some.2
          ⟨record, hrecord, hactive, current, hcurrent, hmelted, hcoin⟩)

/-- **Found launchers that slots name catch up exactly if every spend on their way can be
followed.** -/
theorem catchUp_ends_iff_followable (htruthful : Truthful D chain client)
    (hids : ListsKeys keys ids) (hkeyed : store.Keyed) (hkeys : ∀ l, store l ≠ none → l ∈ keys)
    (hsettled : Settled store) :
    Ends D chain client ids store ↔ Followable D chain store := by
  have hkept : Kept keys store := ⟨hkeyed, hkeys⟩
  constructor
  · intro hends launcher id hlive s hs hway
    by_contra hnone
    exact not_ends htruthful hids hkept hsettled hlive hs hway
      (fun result hresult => hnone ⟨result, hresult⟩) hends
  · intro hfollowable
    have hstep : ∀ t ∈ chain.spends, ∀ l result,
        FollowableFrom D chain l (some (t.coinId D)) →
        D.followSingletonSpend t.spend l = .ok result →
        FollowableFrom D chain l (coinAfter D result) := by
      intro t ht l result hbefore hfollow id hid s hs hleads
      cases result with
      | melted lastCoin innerPuzzleHash nft => cases hid
      | next next =>
          obtain rfl := Option.some.inj hid
          exact hbefore _ rfl s hs (hleads.head ⟨t, ht, rfl, next, hfollow, rfl⟩)
    have hstart : Way (FollowableFrom D chain) store := ⟨hsettled, hkeyed, hfollowable⟩
    have hmoves : ∀ store', Visits (catchUpPass D client ids) store store' →
        ¬ Stuck D chain ids store' := by
      intro store' hvisits hstuck
      obtain ⟨hkept', hway⟩ := hvisits.keep
        (fun s s' hs hpass => Way.pass hstep htruthful hids hs hpass) ⟨hkept, hstart⟩
      have hlisted := hids store' hkept'.keys
      have hspent := hstuck.spent
      unfold AllUnspent at hspent
      push Not at hspent
      obtain ⟨launcher, id, hlive, s, hs, rfl⟩ := hspent
      obtain ⟨l, -, hfails⟩ := hstuck.fails hway.keyed hlisted.1
        ((hlisted.2 launcher).2 (liveCoin_ne_none hlive)) hs hlive
      rw [launcherFails_eq_false hway.settled fun hl => hway.coins l _ hl s hs .refl] at hfails
      cases hfails
    obtain ⟨result, hreturns⟩ := (returns_iff htruthful hids hkept).2 hmoves
    exact ends_of_returns htruthful hids hkept hreturns

end

/-- **When the loop ends**: no pass starts where it gets stuck. -/
theorem catchUp_ends_iff {Spend : Type} (D : Driver Spend) (chain : Chain D)
    {client : CoinsetClient Spend} (h : Truthful D chain client)
    {ids : SingletonStore → List Bytes} {keys : List Bytes} (hids : ListsKeys keys ids)
    {store : SingletonStore} (hkeyed : store.Keyed) (hkeys : ∀ l, store l ≠ none → l ∈ keys) :
    Ends D chain client ids store ↔
      ∀ store', Visits (catchUpPass D client ids) store store' → ¬ Stuck D chain ids store' := by
  have hkept : Kept keys store := ⟨hkeyed, hkeys⟩
  rw [← returns_iff h hids hkept]
  constructor
  · rintro ⟨store', hreturns, -⟩
    exact ⟨_, hreturns⟩
  · rintro ⟨result, hreturns⟩
    exact ends_of_returns h hids hkept hreturns

/-! ## A node, as an example -/

section

variable {Spend : Type} {D : Driver Spend}

/-- A node that answers from a chain, and knows some coins that are not spent. -/
def clientOf (chain : Chain D) (unspent : List Coin) : CoinsetClient Spend where
  getCoinRecordsByNames names :=
    .ok (some (((chain.spends.filter fun s => decide (s.coinId D ∈ names)).map fun s =>
      ⟨D.coin s.spend, true, s.height⟩)
        ++ (unspent.filter fun c => decide (D.coinId c ∈ names)).map fun c => ⟨c, false, 0⟩))
  getPuzzleAndSolution id height :=
    .ok ((chain.spends.find? fun s => decide (s.coinId D = id ∧ s.height = height)).map
      ChainSpend.spend)

theorem truthful_clientOf (chain : Chain D) (unspent : List Coin) :
    Truthful D chain (clientOf chain unspent) where
  records names _ := by
    refine ⟨_, rfl, fun record hrecord hspent => ?_, fun s hs hname => ?_⟩
    · rcases List.mem_append.1 hrecord with hrecord | hrecord
      · obtain ⟨s, hs, rfl⟩ := List.mem_map.1 hrecord
        obtain ⟨hs, hname⟩ := List.mem_filter.1 hs
        exact ⟨s, hs, rfl, of_decide_eq_true hname, rfl⟩
      · obtain ⟨c, -, rfl⟩ := List.mem_map.1 hrecord
        cases hspent
    · refine ⟨⟨D.coin s.spend, true, s.height⟩, List.mem_append_left _ ?_, rfl, rfl⟩
      exact List.mem_map_of_mem (List.mem_filter.2 ⟨hs, decide_eq_true hname⟩)
  spend s hs := by
    have hfound : chain.spends.find? (fun t => decide (t.coinId D = s.coinId D ∧
        t.height = s.height)) = some s := by
      cases hfind : chain.spends.find? (fun t => decide (t.coinId D = s.coinId D ∧
          t.height = s.height)) with
      | none =>
          have hnot := List.find?_eq_none.1 hfind s hs
          simp at hnot
      | some t =>
          have hdecide := List.find?_some hfind
          have ht := of_decide_eq_true hdecide
          rw [List.inj_on_of_nodup_map chain.nodup (List.mem_of_find?_eq_some hfind) hs ht.1]
    unfold clientOf
    dsimp only
    rw [hfound]
    rfl

end

namespace CatchUpExample

open Xchandles.Example (bytes32)
open BlockExample

/-- The launchers of a store, if it has none but some. -/
def listed (keys : List Bytes) (store : SingletonStore) : List Bytes :=
  keys.filter fun l => (store l).isSome

theorem listsKeys_listed {keys : List Bytes} (hnodup : keys.Nodup) :
    ListsKeys keys (listed keys) := by
  refine fun store hkeys => ⟨hnodup.filter _, fun l => ?_⟩
  unfold listed
  rw [List.mem_filter, Option.isSome_iff_ne_none]
  exact ⟨fun h => h.2, fun h => ⟨hkeys l h, h⟩⟩

/-- A chain with one spend, which does not create its own coin. -/
def chainOf (spend : SingletonSpend)
    (h : ∀ launcher next, strictDriver.followSingletonSpend spend launcher = .ok (.next next) →
      strictDriver.coinId spend.coin ≠ strictDriver.coinId next.coin) : Chain strictDriver where
  spends := [⟨100, spend⟩]
  nodup := List.nodup_singleton _
  afterParent := by
    intro i j hi hj launcher next hnext hcoin
    obtain rfl : i = 0 := Nat.lt_one_iff.1 hi
    obtain rfl : j = 0 := Nat.lt_one_iff.1 hj
    exact absurd hcoin (h launcher next hnext)

/-- What is followed from the first spend. -/
theorem first_creates (launcher : Bytes) (next : DiscoveredSingleton)
    (h : strictDriver.followSingletonSpend first launcher = .ok (.next next)) :
    strictDriver.coinId first.coin ≠ strictDriver.coinId next.coin := by
  obtain rfl : first.child = next := FollowSpendResult.next.inj (Except.ok.inj h)
  exact coinId_childOf_ne

/-- The spend of an NFT without a child cannot be followed. -/
theorem lastOfNft_creates (launcher : Bytes) (next : DiscoveredSingleton)
    (h : strictDriver.followSingletonSpend lastOfNft launcher = .ok (.next next)) :
    strictDriver.coinId lastOfNft.coin ≠ strictDriver.coinId next.coin := by
  cases h

/-- A store of one launcher. -/
def storeOf (n : Byte) : SingletonStore := SingletonStore.upsert (fun _ => none) (followed n)

theorem storeOf_self (n : Byte) : storeOf n (bytes32 n) = some (followed n) := by
  unfold storeOf SingletonStore.upsert
  exact Function.update_self ..

theorem storeOf_cases {n : Byte} {l : Bytes} {r : FollowedSingleton} (h : r ∈ storeOf n l) :
    l = bytes32 n ∧ r = followed n := by
  by_cases hl : l = bytes32 n
  · subst hl
    exact ⟨rfl, Option.some.inj (h.symm.trans (storeOf_self n))⟩
  · have hnone := Function.update_of_ne hl (some (followed n)) fun _ => none
    cases hnone.symm.trans h

theorem keyed_storeOf (n : Byte) : (storeOf n).Keyed := by
  intro l r hr
  obtain ⟨rfl, rfl⟩ := storeOf_cases hr
  rfl

theorem settled_storeOf (n : Byte) : Settled (storeOf n) := by
  intro l r hr
  obtain ⟨rfl, rfl⟩ := storeOf_cases hr
  exact ⟨FollowRecordStatus.noConfusion, Nat.one_ne_zero⟩

theorem keys_storeOf (n : Byte) (l : Bytes) (hl : storeOf n l ≠ none) : l ∈ [bytes32 n] := by
  obtain ⟨r, hr⟩ := Option.ne_none_iff_exists'.1 hl
  rw [(storeOf_cases hr).1]
  exact List.mem_singleton_self _

theorem liveCoin_storeOf (n : Byte) :
    liveCoin (storeOf n) (bytes32 n) = some (strictDriver.coinId (eve n)) :=
  liveCoin_eq_some.2 ⟨followed n, storeOf_self n, rfl, _, rfl, rfl, rfl⟩

/-- The chain with the first spend. -/
def firstChain : Chain strictDriver := chainOf first first_creates

/-- The chain with the last spend of an NFT. -/
def nftChain : Chain strictDriver := chainOf lastOfNft lastOfNft_creates

end CatchUpExample

open CatchUpExample BlockExample in
open Xchandles.Example (bytes32) in
/-- A launcher whose coin is spent once catches up. -/
theorem catchUp_ends_iff_first :
    Ends strictDriver firstChain (clientOf firstChain [childOf (eve 1)]) (listed [bytes32 1])
      (storeOf 1) ∧
    ∀ store', Visits (catchUpPass strictDriver (clientOf firstChain [childOf (eve 1)])
      (listed [bytes32 1])) (storeOf 1) store' →
      ¬ Stuck strictDriver firstChain (listed [bytes32 1]) store' := by
  have hends : Ends strictDriver firstChain (clientOf firstChain [childOf (eve 1)])
      (listed [bytes32 1]) (storeOf 1) := by
    refine (catchUp_ends_iff_followable (truthful_clientOf _ _)
      (listsKeys_listed (List.nodup_singleton _)) (keyed_storeOf 1) (keys_storeOf 1)
      (settled_storeOf 1)).2 fun launcher id hid s hs hway => ?_
    rw [List.mem_singleton.1 hs]
    exact ⟨_, rfl⟩
  exact ⟨hends, (catchUp_ends_iff strictDriver firstChain (truthful_clientOf _ _)
    (listsKeys_listed (List.nodup_singleton _)) (keyed_storeOf 1) (keys_storeOf 1)).1 hends⟩

open CatchUpExample BlockExample in
open Xchandles.Example (bytes32) in
/-- **The loop does not end**: the coin of an NFT is spent without a child, and its spend is
tried again in every pass. -/
theorem catchUp_ends_fails :
    Truthful strictDriver nftChain (clientOf nftChain []) ∧
    ListsKeys [bytes32 2] (listed [bytes32 2]) ∧ (storeOf 2).Keyed ∧
    liveCoin (storeOf 2) (bytes32 2) = some (strictDriver.coinId lastOfNft.coin) ∧
    ¬ Ends strictDriver nftChain (clientOf nftChain []) (listed [bytes32 2]) (storeOf 2) := by
  refine ⟨truthful_clientOf _ _, listsKeys_listed (List.nodup_singleton _), keyed_storeOf 2,
    liveCoin_storeOf 2, ?_⟩
  have hkept : Kept [bytes32 2] (storeOf 2) := ⟨keyed_storeOf 2, keys_storeOf 2⟩
  have hmem : (⟨100, lastOfNft⟩ : ChainSpend SingletonSpend) ∈ nftChain.spends :=
    List.mem_singleton_self _
  refine not_ends (truthful_clientOf _ _) (listsKeys_listed (List.nodup_singleton _)) hkept
    (settled_storeOf 2) (liveCoin_storeOf 2) hmem .refl fun result hresult => ?_
  cases hresult

end SlotMachine.Listener.CatchUp
