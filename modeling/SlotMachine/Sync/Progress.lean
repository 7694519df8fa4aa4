import SlotMachine.Sync.Walk

/-!
# What every run of a sync keeps

A protocol says what its writes keep of the slots: `Base`, which holds at all
times, and `At n`, which says that the slots are those after `n` spends, or on the
way to a later spend.  The coins that are saved say where a run can resume.

* `Keeper` — what the writes of a protocol keep.
* `Stored` — what holds of the database at all times; a coin saved as unspent is
  one after which the slots are known.
* `Reaches.inv` — **this holds whatever runs there were**, and a sync that is done
  knows the slots up to the tip it returns.
* `Keeper.completes` — **a sync is done after finitely many steps**, if the node answers.
-/

namespace SlotMachine.Sync

variable {Sp V L : Type} {P : Protocol Sp V L} {Valid : Chain V L → Prop}
variable {Base : Chain V L → Db V → Prop} {At : Chain V L → ℕ → Db V → Prop}
variable {c c' : Chain V L} {db db' : Db V} {node : Node Sp}

/-! ## Chains that grow -/

theorem Chain.coinAt_eq (c : Chain V L) (n : ℕ) :
    c.coinAt n = ((c.pendings.take n).getLast?.map PendingSpend.child).getD c.first := by
  unfold Chain.coinAt Chain.pendings
  rw [← List.map_take, List.getLast?_map, Option.map_map]
  rfl

theorem Chain.length_pendings (c : Chain V L) : c.pendings.length = c.length := List.length_map ..

theorem Chain.coinAt_succ (c : Chain V L) {n : ℕ} (h : n < c.spends.length) :
    c.coinAt (n + 1) = c.spends[n].pending.child := by
  unfold Chain.coinAt
  rw [List.take_succ_eq_append_getElem h, List.getLast?_append]
  rfl

theorem Chain.Grows.continues (h : c.Grows c') : c.Continues c' where
  first_eq := h.first_eq
  slots_eq := h.slots_eq
  isPrefix := h.isPrefix.map _

theorem Chain.Grows.refl (c : Chain V L) : c.Grows c := ⟨rfl, rfl, List.prefix_refl _⟩

theorem Chain.Grows.trans {c'' : Chain V L} (h : c.Grows c') (h' : c'.Grows c'') :
    c.Grows c'' where
  first_eq := h'.first_eq.trans h.first_eq
  slots_eq := h'.slots_eq.trans h.slots_eq
  isPrefix := h.isPrefix.trans h'.isPrefix

theorem Chain.Continues.length_le (h : c.Continues c') : c.length ≤ c'.length := by
  have hle := h.isPrefix.length_le
  rwa [Chain.length_pendings, Chain.length_pendings] at hle

theorem Chain.Continues.take_pendings (h : c.Continues c') {n : ℕ} (hn : n ≤ c.length) :
    c'.pendings.take n = c.pendings.take n := by
  obtain ⟨more, heq⟩ := h.isPrefix
  rw [← heq, List.take_append_of_le_length (by rwa [Chain.length_pendings])]

theorem Chain.Continues.coinAt_eq (h : c.Continues c') {n : ℕ} (hn : n ≤ c.length) :
    c'.coinAt n = c.coinAt n := by
  rw [Chain.coinAt_eq, Chain.coinAt_eq, h.first_eq, h.take_pendings hn]

theorem Chain.Grows.getElem_eq (h : c.Grows c') {n : ℕ} (hn : n < c.spends.length)
    (hn' : n < c'.spends.length) : c'.spends[n] = c.spends[n] :=
  (h.isPrefix.getElem hn).symm

/-! ## What a protocol keeps -/

/-- **What the writes of a protocol keep of the slots.** -/
structure Keeper (P : Protocol Sp V L) (Valid : Chain V L → Prop)
    (Base : Chain V L → Db V → Prop) (At : Chain V L → ℕ → Db V → Prop) : Prop where
  linked : ∀ {c}, Valid c → c.Linked P.launcherId
  given_eq : ∀ {c}, Valid c → ∀ k ∈ P.given, k = c.first.constants
  base_empty : ∀ {c}, Valid c → Base c .empty
  base_same : ∀ {c db db'}, db.SameSlots db' → Base c db → Base c db'
  at_same : ∀ {c n db db'}, db.SameSlots db' → At c n db → At c n db'
  base_continues : ∀ {c c' db}, Valid c → Valid c' → c.Continues c' → Base c db → Base c' db
  at_continues : ∀ {c c' n db}, Valid c → Valid c' → c.Continues c' → n ≤ c.length →
    At c n db → At c' n db
  initial_sameCoins : ∀ slots, ∀ w ∈ P.storeInitial slots, ∀ db : Db V, db.SameCoins (w db)
  store_sameCoins : ∀ pending height, ∀ w ∈ P.store pending height, ∀ db : Db V,
    db.SameCoins (w db)
  initial_base : ∀ {c db}, Valid c → Base c db → ∀ ws, ws <+: P.storeInitial c.slots →
    Base c (runWrites ws db)
  initial_at : ∀ {c db}, Valid c → Base c db → At c 0 (runWrites (P.storeInitial c.slots) db)
  /-- While a spend is stored, the slots are those before it, or on the way. -/
  store_before : ∀ {c db n height}, Valid c → (h : n < c.spends.length) → 0 < height →
    Base c db → At c n db → ∀ ws, ws <+: P.store c.spends[n].pending height →
    Base c (runWrites ws db) ∧ At c n (runWrites ws db)
  store_after : ∀ {c db n height}, Valid c → (h : n < c.spends.length) → 0 < height →
    Base c db → At c n db → At c (n + 1) (runWrites (P.store c.spends[n].pending height) db)

/-- The same is kept of fewer chains. -/
theorem Keeper.mono {Valid' : Chain V L → Prop} (K : Keeper P Valid Base At)
    (h : ∀ {c}, Valid' c → Valid c) : Keeper P Valid' Base At where
  linked hc := K.linked (h hc)
  given_eq hc := K.given_eq (h hc)
  base_empty hc := K.base_empty (h hc)
  base_same := K.base_same
  at_same := K.at_same
  base_continues hc hc' := K.base_continues (h hc) (h hc')
  at_continues hc hc' := K.at_continues (h hc) (h hc')
  initial_sameCoins := K.initial_sameCoins
  store_sameCoins := K.store_sameCoins
  initial_base hc := K.initial_base (h hc)
  initial_at hc := K.initial_at (h hc)
  store_before hc := K.store_before (h hc)
  store_after hc := K.store_after (h hc)

/-! ## What holds of the database at all times -/

/-- The only coin that is saved as unspent is the one after `n` spends. -/
def UnspentIs (c : Chain V L) (db : Db V) (n : ℕ) : Prop :=
  ∀ r ∈ db.singletonCoins, r.spentBlockHeight = 0 → r.coinId = (c.coinAt n).coin.coinId

/-- **What holds of the database at all times.** -/
structure Stored (P : Protocol Sp V L) (Base : Chain V L → Db V → Prop)
    (At : Chain V L → ℕ → Db V → Prop) (c : Chain V L) (db : Db V) : Prop where
  base : Base c db
  coins : ∀ r ∈ db.singletonCoins, r.launcherId = P.launcherId ∧ ∃ n < c.length,
    r.coinId = (c.coinAt (n + 1)).coin.coinId ∧ r.parentCoinId = (c.coinAt n).coin.coinId
  /-- A sync can resume at a coin that is saved as unspent. -/
  resumable : ∀ r ∈ db.singletonCoins, r.spentBlockHeight = 0 → ∀ n < c.length,
    r.coinId = (c.coinAt (n + 1)).coin.coinId →
    At c (n + 1) db ∧ P.savedConstants db = some c.first.constants ∧ UnspentIs c db (n + 1)
  configured : ∀ k ∈ P.savedConstants db, k = c.first.constants

/-- A sync returned the tip of the chain it followed, or what a node that knew this chain
makes of a spend of the tip. -/
def Protocol.ReturnsTip (P : Protocol Sp V L) (c₀ c : Chain V L) (result : SyncResult L) : Prop :=
  ∃ (c₁ : Chain V L) (node : Node Sp) (walked : List (SpentTransition L)), c₀.Grows c₁ ∧
    c₁.Grows c ∧ Serves P node c₁ ∧ P.finish node c₀.tip walked = .ok result

/-- What holds where a sync is. -/
def StageInv (P : Protocol Sp V L) (Valid : Chain V L → Prop) (Base : Chain V L → Db V → Prop)
    (At : Chain V L → ℕ → Db V → Prop) (c : Chain V L) : Stage V L → Db V → Prop
  | .starting, _ => True
  | .writing ws next, db =>
      (∀ ws', ws' <+: ws → Stored P Base At c (runWrites ws' db)) ∧
        StageInv P Valid Base At c next (runWrites ws db)
  | .fetching registry skipSave _, db => ∃ n ≤ c.length, registry = c.coinAt n ∧ At c n db ∧
      P.savedConstants db = some c.first.constants ∧ (skipSave = false → 0 < n) ∧
      (UnspentIs c db n ∨ ∃ m, n = m + 1 ∧ UnspentIs c db m) ∧
      (skipSave = true → ∀ r ∈ db.singletonCoins, r.spentBlockHeight ≠ 0)
  | .reading registry record _, db => ∃ n, ∃ h : n < c.spends.length, registry = c.coinAt n ∧
      At c n db ∧ P.savedConstants db = some c.first.constants ∧ UnspentIs c db n ∧
      record.spentBlockIndex = c.spends[n].height ∧ 0 < c.spends[n].height
  | .finishing registry _, db => ∃ c₀, Valid c₀ ∧ c₀.Grows c ∧ registry = c₀.tip ∧
      Base c₀ db ∧ At c₀ c₀.length db
  | .done (.ok result), db => ∃ c₀, Valid c₀ ∧ P.ReturnsTip c₀ c result ∧ Base c₀ db ∧
      At c₀ c₀.length db
  | .done (.error _), _ => True

/-! ## The database, when the chain grows or a statement runs -/

theorem Protocol.ReturnsTip.mono {c₀ : Chain V L} {result : SyncResult L}
    (h : P.ReturnsTip c₀ c result) (hg : c.Grows c') : P.ReturnsTip c₀ c' result := by
  obtain ⟨c₁, node, walked, hg₀, hg₁, hrest⟩ := h
  exact ⟨c₁, node, walked, hg₀, hg₁.trans hg, hrest⟩

theorem UnspentIs.continues {n : ℕ} (hg : c.Continues c') (hn : n ≤ c.length)
    (h : UnspentIs c db n) : UnspentIs c' db n := by
  intro r hr hspent
  rw [hg.coinAt_eq hn]
  exact h r hr hspent

theorem Db.SameCoins.savedConstants_eq (h : db.SameCoins db') :
    P.savedConstants db' = P.savedConstants db := by
  unfold Protocol.savedConstants Db.getXchandlesConfiguration
  rw [h.xchandlesConfigurations_eq]

theorem Db.SameCoins.unspentIs {n : ℕ} (hs : db.SameCoins db') (h : UnspentIs c db n) :
    UnspentIs c db' n := by
  unfold UnspentIs
  rw [hs.singletonCoins_eq]
  exact h

/-- A statement about the slots. -/
theorem Stored.slots (hsame : db.SameCoins db') (h : Stored P Base At c db)
    (hbase : Base c db') (hat : ∀ r ∈ db.singletonCoins, r.spentBlockHeight = 0 →
      ∀ n < c.length, r.coinId = (c.coinAt (n + 1)).coin.coinId → At c (n + 1) db') :
    Stored P Base At c db' where
  base := hbase
  coins := by
    rw [hsame.singletonCoins_eq]
    exact h.coins
  resumable := by
    rw [hsame.singletonCoins_eq]
    intro r hr hspent n hn hcoin
    obtain ⟨-, hconstants, hunspent⟩ := h.resumable r hr hspent n hn hcoin
    refine ⟨hat r hr hspent n hn hcoin, ?_, hsame.unspentIs hunspent⟩
    rw [hsame.savedConstants_eq, hconstants]
  configured := by
    rw [hsame.savedConstants_eq]
    exact h.configured

section

variable (K : Keeper P Valid Base At)
include K

theorem Keeper.stored_empty (hc : Valid c) : Stored P Base At c .empty where
  base := K.base_empty hc
  coins := fun r hr => absurd hr List.not_mem_nil
  resumable := fun r hr => absurd hr List.not_mem_nil
  configured := by
    intro k hk
    refine K.given_eq hc k ?_
    unfold Protocol.savedConstants at hk
    rwa [Db.getXchandlesConfiguration, Db.empty, List.find?_nil, Option.or_none] at hk

theorem Keeper.stored_continues (hc : Valid c) (hc' : Valid c') (hg : c.Continues c')
    (h : Stored P Base At c db) : Stored P Base At c' db where
  base := K.base_continues hc hc' hg h.base
  coins := by
    intro r hr
    obtain ⟨hlauncher, n, hn, hcoin, hparent⟩ := h.coins r hr
    refine ⟨hlauncher, n, hn.trans_le hg.length_le, ?_, ?_⟩
    · rwa [hg.coinAt_eq hn]
    · rwa [hg.coinAt_eq hn.le]
  resumable := by
    intro r hr hspent n hn hcoin
    -- the coin is one that the chain had before it grew
    obtain ⟨-, m, hm, hcoin', -⟩ := h.coins r hr
    have hsame : m + 1 = n + 1 := by
      refine (K.linked hc').coinId_inj _ (hm.trans_le hg.length_le) _ hn ?_
      rw [hg.coinAt_eq hm, ← hcoin', hcoin]
    obtain rfl : m = n := Nat.succ.inj hsame
    obtain ⟨hat, hconstants, hunspent⟩ := h.resumable r hr hspent m hm hcoin'
    refine ⟨K.at_continues hc hc' hg hm hat, ?_, hunspent.continues hg hm⟩
    rw [hconstants, hg.first_eq]
  configured := by
    rw [hg.first_eq]
    exact h.configured

/-- The parent of a coin is spent. -/
theorem Keeper.stored_spendParentCoin {record : CoinRecord} (hpos : 0 < record.confirmedBlockIndex)
    (h : Stored P Base At c db) : Stored P Base At c (db.spendParentCoin record) where
  base := by
    have hsame : db.SameSlots (db.spendParentCoin record) := ⟨rfl, rfl, rfl⟩
    exact K.base_same hsame h.base
  coins := Table.forall_update (fun r hr _ => h.coins r hr) fun r hr _ => h.coins r hr
  resumable := by
    intro r hr hspent n hn hcoin
    have hsame : db.SameSlots (db.spendParentCoin record) := ⟨rfl, rfl, rfl⟩
    obtain ⟨r₀, hr₀, ⟨-, rfl⟩ | ⟨-, rfl⟩⟩ := Table.mem_update hr
    · exact absurd hspent hpos.ne'
    · obtain ⟨hat, hconstants, hunspent⟩ := h.resumable r hr₀ hspent n hn hcoin
      refine ⟨K.at_same hsame hat, hconstants, ?_⟩
      exact Table.forall_update (fun r' hr' _ => hunspent r' hr') fun r' _ _ hspent' =>
        absurd hspent' hpos.ne'
  configured := h.configured

/-- The coin is saved. -/
theorem Keeper.stored_insertSingletonCoin (hc : Valid c) {record : CoinRecord} {n : ℕ}
    (hn : n < c.length) (hcoin : record.coin = (c.coinAt (n + 1)).coin)
    (hat : At c (n + 1) db) (hconstants : P.savedConstants db = some c.first.constants)
    (hunspent : UnspentIs c db (n + 1)) (h : Stored P Base At c db) :
    Stored P Base At c (db.insertSingletonCoin P.launcherId record) ∧
      UnspentIs c (db.insertSingletonCoin P.launcherId record) (n + 1) := by
  have hsame : db.SameSlots (db.insertSingletonCoin P.launcherId record) := ⟨rfl, rfl, rfl⟩
  have hunspent' : UnspentIs c (db.insertSingletonCoin P.launcherId record) (n + 1) :=
    Table.forall_upsert (fun r hr _ => hunspent r hr) (fun r hr _ => hunspent r hr)
      fun _ => congrArg Coin.coinId hcoin
  refine ⟨⟨K.base_same hsame h.base, ?_, ?_, h.configured⟩, hunspent'⟩
  · refine Table.forall_upsert (fun r hr _ => h.coins r hr) (fun r hr _ => h.coins r hr)
      ⟨rfl, n, hn, ?_, ?_⟩
    · exact congrArg Coin.coinId hcoin
    · rw [hcoin]
      exact (K.linked hc).parent_eq n hn
  · intro r hr hspent m hm hcoin'
    obtain rfl : m = n := Nat.succ.inj
      ((K.linked hc).coinId_inj _ hm _ hn (hcoin'.symm.trans (hunspent' r hr hspent)))
    exact ⟨K.at_same hsame hat, hconstants, hunspent'⟩

end

/-! ## A step -/

theorem Serves.resume_eq (h : Serves P node c) {n : ℕ} (hn : n < c.length) :
    P.resume node (c.coinAt n).coin.coinId c.first.constants = .ok (c.coinAt (n + 1)) := by
  obtain ⟨record, spend, hrecord, -, -, hheight, -, -, hspend, -, hparent⟩ := h.spent n hn
  unfold Protocol.resume
  rw [hrecord]
  simp only [hheight, hspend, hparent]
  rfl

theorem isPrefix_append_cases {α : Type*} {l as bs : List α} (h : l <+: as ++ bs) :
    l <+: as ∨ ∃ bs', bs' <+: bs ∧ l = as ++ bs' := by
  rcases List.prefix_or_prefix_of_prefix h (List.prefix_append as bs) with hl | ⟨bs', rfl⟩
  · exact Or.inl hl
  · exact Or.inr ⟨bs', (List.prefix_append_right_inj as).1 h, rfl⟩

/-- The constants are there once they have been saved. -/
theorem getXchandlesConfiguration_save (constants : RegistryConstants) (db : Db V) :
    (db.saveXchandlesConfiguration constants).getXchandlesConfiguration constants.launcherId
      = some constants := by
  unfold Db.getXchandlesConfiguration Db.saveXchandlesConfiguration
  have hall : ∀ k ∈ Table.upsert RegistryConstants.launcherId (fun _ => constants) constants
      db.xchandlesConfigurations, k.launcherId = constants.launcherId → k = constants :=
    Table.forall_upsert (fun k _ hne heq => absurd heq hne) (fun _ _ _ _ => rfl) fun _ => rfl
  obtain ⟨k, hk, hkey⟩ : ∃ k ∈ Table.upsert RegistryConstants.launcherId (fun _ => constants)
      constants db.xchandlesConfigurations, k.launcherId = constants.launcherId :=
    Table.exists_upsert (fun _ _ _ => rfl) rfl
  cases hfind : List.find? (fun r => decide (r.launcherId = constants.launcherId))
      (Table.upsert RegistryConstants.launcherId (fun _ => constants) constants
        db.xchandlesConfigurations) with
  | none => exact absurd hkey (by simpa using List.find?_eq_none.1 hfind k hk)
  | some k' =>
      have hkey' := List.find?_some hfind
      rw [hall k' (List.mem_of_find?_eq_some hfind) (of_decide_eq_true hkey')]

section

variable (K : Keeper P Valid Base At)
include K

theorem Keeper.stageInv_continues (hc : Valid c) (hc' : Valid c') (hg : c.Grows c')
    {stage : Stage V L} (h : StageInv P Valid Base At c stage db) :
    StageInv P Valid Base At c' stage db := by
  induction stage generalizing db with
  | starting => trivial
  | writing ws next ih =>
      exact ⟨fun ws' hws' => K.stored_continues hc hc' hg.continues (h.1 ws' hws'), ih h.2⟩
  | fetching registry skipSave walked =>
      obtain ⟨n, hn, hregistry, hat, hconstants, hpos, hunspent, hskip⟩ := h
      refine ⟨n, hn.trans hg.continues.length_le, ?_, K.at_continues hc hc' hg.continues hn hat,
        ?_, hpos, ?_, hskip⟩
      · rw [hg.continues.coinAt_eq hn, hregistry]
      · rw [hconstants, hg.first_eq]
      · rcases hunspent with h | ⟨m, rfl, h⟩
        · exact Or.inl (h.continues hg.continues hn)
        · exact Or.inr ⟨m, rfl, h.continues hg.continues (Nat.le_of_succ_le hn)⟩
  | reading registry record walked =>
      obtain ⟨n, hn, hregistry, hat, hconstants, hunspent, hheight, hpos⟩ := h
      have hle : n ≤ c.length := Nat.le_of_lt hn
      have hn' := hn.trans_le hg.isPrefix.length_le
      have heq := hg.getElem_eq hn hn'
      refine ⟨n, hn', ?_, K.at_continues hc hc' hg.continues hle hat,
        ?_, hunspent.continues hg.continues hle, ?_, ?_⟩
      · rw [hg.continues.coinAt_eq hle, hregistry]
      · rw [hconstants, hg.first_eq]
      · rw [heq, hheight]
      · rwa [heq]
  | finishing registry walked =>
      obtain ⟨c₀, hc₀, hg₀, hrest⟩ := h
      exact ⟨c₀, hc₀, hg₀.trans hg, hrest⟩
  | done result =>
      cases result with
      | error e => trivial
      | ok result =>
          obtain ⟨c₀, hc₀, htip, hrest⟩ := h
          exact ⟨c₀, hc₀, htip.mono hg, hrest⟩

end

/-- Without a coin to resume at, no coin is saved as unspent. -/
theorem Stored.unspent_none (h : Stored P Base At c db)
    (hresume : resumeFromSavedTip (db.getLastUnspentSingletonCoin P.launcherId)
      (P.savedConstants db) = none) : ∀ r ∈ db.singletonCoins, r.spentBlockHeight ≠ 0 := by
  intro r hr hspent
  obtain ⟨hlauncher, n, hn, hcoin, -⟩ := h.coins r hr
  obtain ⟨-, hconstants, -⟩ := h.resumable r hr hspent n hn hcoin
  cases hlast : db.getLastUnspentSingletonCoin P.launcherId with
  | none =>
      have hnone := List.find?_eq_none.1 (Option.map_eq_none_iff.1 hlast) r hr
      simp [hlauncher, hspent] at hnone
  | some last =>
      rw [hlast, hconstants] at hresume
      cases hresume

/-- A sync resumes at a coin that is saved as unspent. -/
theorem Stored.exists_resumed (h : Stored P Base At c db) {parentCoinId : Bytes}
    {constants : RegistryConstants}
    (hresume : resumeFromSavedTip (db.getLastUnspentSingletonCoin P.launcherId)
      (P.savedConstants db) = some (parentCoinId, constants)) :
    ∃ n < c.length, parentCoinId = (c.coinAt n).coin.coinId ∧ constants = c.first.constants ∧
      At c (n + 1) db ∧ P.savedConstants db = some c.first.constants ∧ UnspentIs c db (n + 1) := by
  unfold resumeFromSavedTip at hresume
  split at hresume
  · next hlast hsaved =>
      obtain ⟨rfl, rfl⟩ := Prod.mk.inj (Option.some.inj hresume)
      obtain ⟨r, hfind, hr⟩ := Option.map_eq_some_iff.1 hlast
      have hmem := List.mem_of_find?_eq_some hfind
      have hspent := List.find?_some hfind
      rw [decide_eq_true_eq] at hspent
      obtain ⟨-, n, hn, hcoin, hparent⟩ := h.coins r hmem
      refine ⟨n, hn, ?_, h.configured _ hsaved, h.resumable r hmem hspent.2 n hn hcoin⟩
      rw [← hparent]
      exact (congrArg Prod.snd hr).symm
  · cases hresume

section

variable (K : Keeper P Valid Base At)
include K

theorem Keeper.savedConstants_save (hc : Valid c) (db : Db V) :
    P.savedConstants (db.saveXchandlesConfiguration c.first.constants)
      = some c.first.constants := by
  unfold Protocol.savedConstants
  rw [← (K.linked hc).launcherId_eq, getXchandlesConfiguration_save]
  cases hgiven : P.given with
  | none => rfl
  | some k => rw [K.given_eq hc k hgiven, Option.some_or]

/-- The constants are saved. -/
theorem Keeper.stored_saveConstants (hc : Valid c) (h : Stored P Base At c db)
    (hnone : ∀ r ∈ db.singletonCoins, r.spentBlockHeight ≠ 0) :
    Stored P Base At c (db.saveXchandlesConfiguration c.first.constants) where
  base := by
    have hsame : db.SameSlots (db.saveXchandlesConfiguration c.first.constants) := ⟨rfl, rfl, rfl⟩
    exact K.base_same hsame h.base
  coins := h.coins
  resumable := fun r hr hspent => absurd hspent (hnone r hr)
  configured := by
    rw [K.savedConstants_save hc]
    exact fun k hk => (Option.some.inj hk).symm

/-- A sync that starts from the launcher. -/
theorem Keeper.launch_inv (hc : Valid c) (h : Stored P Base At c db)
    (hnone : ∀ r ∈ db.singletonCoins, r.spentBlockHeight ≠ 0) :
    StageInv P Valid Base At c (.writing (P.storeInitial c.slots ++ P.persistConstants db c.first)
      (.fetching c.first true [])) db := by
  have hinitial : ∀ ws, ws <+: P.storeInitial c.slots →
      Stored P Base At c (runWrites ws db) ∧ db.SameCoins (runWrites ws db) := by
    intro ws hws
    have hsame : db.SameCoins (runWrites ws db) :=
      Db.SameCoins.runWrites (fun w hw => K.initial_sameCoins _ w (hws.subset hw)) db
    exact ⟨h.slots hsame (K.initial_base hc h.base ws hws) fun r hr hspent =>
      absurd hspent (hnone r hr), hsame⟩
  obtain ⟨hstored, hsame⟩ := hinitial _ (List.prefix_refl _)
  have hat := K.initial_at hc h.base
  have hnone' : ∀ r ∈ (runWrites (P.storeInitial c.slots) db).singletonCoins,
      r.spentBlockHeight ≠ 0 := by
    rw [hsame.singletonCoins_eq]
    exact hnone
  unfold Protocol.persistConstants
  cases hsaved : P.savedConstants db with
  | some k =>
      rw [Option.isNone_some, if_neg Bool.false_ne_true, List.append_nil]
      refine ⟨fun ws hws => (hinitial ws hws).1, 0, Nat.zero_le _, rfl, hat, ?_, nofun,
        Or.inl fun r hr hspent => absurd hspent (hnone' r hr), fun _ => hnone'⟩
      rw [hsame.savedConstants_eq, hsaved, h.configured k hsaved]
  | none =>
      rw [Option.isNone_none, if_pos rfl]
      refine ⟨fun ws hws => ?_, ?_⟩
      · rcases isPrefix_append_cases hws with hws | ⟨ws', hws', rfl⟩
        · exact (hinitial ws hws).1
        · rw [runWrites_append]
          rcases List.prefix_cons_iff.1 hws' with rfl | ⟨t, rfl, ht⟩
          · exact hstored
          · rw [List.prefix_nil.1 ht]
            exact K.stored_saveConstants hc hstored hnone'
      · rw [runWrites_append]
        have hslots : (runWrites (P.storeInitial c.slots) db).SameSlots
            ((runWrites (P.storeInitial c.slots) db).saveXchandlesConfiguration
              c.first.constants) := ⟨rfl, rfl, rfl⟩
        exact ⟨0, Nat.zero_le _, rfl, K.at_same hslots hat, K.savedConstants_save hc _, nofun,
          Or.inl fun r hr hspent => absurd hspent (hnone' r hr), fun _ => hnone'⟩

/-- A sync starts. -/
theorem Keeper.start_inv (hc : Valid c) (hnode : Serves P node c) (h : Stored P Base At c db) :
    StageInv P Valid Base At c (P.start node db) db := by
  unfold Protocol.start
  cases hresume : resumeFromSavedTip (db.getLastUnspentSingletonCoin P.launcherId)
      (P.savedConstants db) with
  | some resumed =>
      obtain ⟨parentCoinId, constants⟩ := resumed
      obtain ⟨n, hn, rfl, rfl, hat, hconstants, hunspent⟩ := h.exists_resumed hresume
      simp only [hnode.resume_eq hn]
      exact ⟨n + 1, hn, rfl, hat, hconstants, fun _ => Nat.succ_pos n, Or.inl hunspent, nofun⟩
  | none =>
      simp only [hnode.launch_eq]
      exact K.launch_inv hc h (h.unspent_none hresume)

/-- The coin of a record is saved. -/
theorem Keeper.saveSingletonCoin_inv (hc : Valid c) {record : CoinRecord} {n : ℕ}
    (hn : n < c.length) (hcoin : record.coin = (c.coinAt (n + 1)).coin)
    (hpos : 0 < record.confirmedBlockIndex) (hat : At c (n + 1) db)
    (hconstants : P.savedConstants db = some c.first.constants)
    (hunspent : UnspentIs c db (n + 1) ∨ UnspentIs c db n) (h : Stored P Base At c db) :
    (∀ ws, ws <+: saveSingletonCoin P.launcherId record →
      Stored P Base At c (runWrites ws db)) ∧
    UnspentIs c (runWrites (saveSingletonCoin P.launcherId record) db) (n + 1) := by
  have hspent := K.stored_spendParentCoin hpos h
  have hunspent' : UnspentIs c (db.spendParentCoin record) (n + 1) := by
    intro r hr hr0
    obtain ⟨r₀, hr₀, ⟨-, rfl⟩ | ⟨hother, rfl⟩⟩ := Table.mem_update hr
    · exact absurd hr0 hpos.ne'
    · rcases hunspent with hunspent | hunspent
      · exact hunspent r hr₀ hr0
      · -- a row of the parent would have been changed
        have hparent : r.coinId = record.coin.parentCoinInfo := by
          rw [hunspent r hr₀ hr0, hcoin, (K.linked hc).parent_eq n hn]
        simp [hparent, hr0] at hother
  have hsame : db.SameSlots (db.spendParentCoin record) := ⟨rfl, rfl, rfl⟩
  obtain ⟨hstored, hlast⟩ := K.stored_insertSingletonCoin hc hn hcoin (K.at_same hsame hat)
    hconstants hunspent' hspent
  refine ⟨fun ws hws => ?_, hlast⟩
  unfold saveSingletonCoin at hws
  rcases List.prefix_cons_iff.1 hws with rfl | ⟨t, rfl, ht⟩
  · exact h
  rcases List.prefix_cons_iff.1 ht with rfl | ⟨t', rfl, ht'⟩
  · exact hspent
  · rw [List.prefix_nil.1 ht']
    exact hstored

/-- A coin is fetched. -/
theorem Keeper.fetch_inv (hc : Valid c) (hnode : Serves P node c) {registry : RegistryCoin}
    {skipSave : Bool} {walked : List (SpentTransition L)} (h : Stored P Base At c db)
    (hstage : StageInv P Valid Base At c (.fetching registry skipSave walked) db) :
    StageInv P Valid Base At c (Protocol.fetch node registry skipSave walked) db := by
  obtain ⟨n, hn, rfl, hat, hconstants, hpos, hunspent, hskip⟩ := hstage
  -- the record of the coin, spent or not
  obtain ⟨record, hrecord, hcoin, hconfirmed, hspent⟩ : ∃ record,
      node.coinRecord (c.coinAt n).coin.coinId = some record ∧ record.coin = (c.coinAt n).coin ∧
      0 < record.confirmedBlockIndex ∧
      ((∃ h : n < c.spends.length, record.spent = true ∧
        record.spentBlockIndex = c.spends[n].height ∧ 0 < c.spends[n].height) ∨
      n = c.length ∧ record.spent = false) := by
    rcases Nat.lt_or_eq_of_le hn with hlt | rfl
    · obtain ⟨record, spend, hrecord, hcoin, hspent, hheight, hconfirmed, hpos, -⟩ :=
        hnode.spent n hlt
      exact ⟨record, hrecord, hcoin, hconfirmed, Or.inl ⟨hlt, hspent, hheight, hpos⟩⟩
    · obtain ⟨record, hrecord, hcoin, hspent, -, hconfirmed⟩ := hnode.tip
      exact ⟨record, hrecord, hcoin, hconfirmed, Or.inr ⟨rfl, hspent⟩⟩
  have hnext : ∀ db' : Db V, db.SameSlots db' → Stored P Base At c db' →
      P.savedConstants db' = some c.first.constants → UnspentIs c db' n →
      StageInv P Valid Base At c
        (if record.spent then .reading (c.coinAt n) record walked
          else .finishing (c.coinAt n) walked) db' := by
    intro db' hsame hstored hconstants' hunspent'
    rcases hspent with ⟨hlt, hspent, hheight, hpos⟩ | ⟨rfl, hspent⟩
    · rw [if_pos hspent]
      exact ⟨n, hlt, rfl, K.at_same hsame hat, hconstants', hunspent', hheight, hpos⟩
    · rw [if_neg (by simp [hspent])]
      exact ⟨c, hc, .refl c, rfl, hstored.base, K.at_same hsame hat⟩
  unfold Protocol.fetch
  simp only [hrecord]
  cases skipSave with
  | true =>
      refine ⟨fun ws hws => ?_, hnext db ⟨rfl, rfl, rfl⟩ h hconstants fun r hr hr0 =>
        absurd hr0 (hskip rfl r hr)⟩
      rw [if_pos rfl, List.prefix_nil] at hws
      rw [hws]
      exact h
  | false =>
      obtain ⟨m, rfl⟩ := Nat.exists_eq_succ_of_ne_zero (hpos rfl).ne'
      have hlauncher : (c.coinAt (m + 1)).constants.launcherId = P.launcherId := by
        rw [(K.linked hc).constants_eq _ hn, (K.linked hc).launcherId_eq]
      have hunspent' : UnspentIs c db (m + 1) ∨ UnspentIs c db m :=
        hunspent.imp id fun ⟨m', hm', hunspent⟩ => Nat.succ.inj hm' ▸ hunspent
      obtain ⟨hsaved, hlast⟩ := K.saveSingletonCoin_inv hc (Nat.lt_of_succ_le hn) hcoin hconfirmed
        hat hconstants hunspent' h
      rw [if_neg Bool.false_ne_true, hlauncher]
      exact ⟨hsaved, hnext _ ⟨rfl, rfl, rfl⟩ (hsaved _ (List.prefix_refl _)) hconstants hlast⟩

/-- A spend is read. -/
theorem Keeper.read_inv (hc : Valid c) (hnode : Serves P node c) {registry : RegistryCoin}
    {record : CoinRecord} {walked : List (SpentTransition L)} (h : Stored P Base At c db)
    (hstage : StageInv P Valid Base At c (.reading registry record walked) db) :
    StageInv P Valid Base At c (P.read node registry record walked) db := by
  obtain ⟨n, hn, rfl, hat, hconstants, hunspent, hheight, hpos⟩ := hstage
  obtain ⟨-, spend, -, -, -, -, -, -, hspend, hparse, -⟩ := hnode.spent n hn
  have hlinked := K.linked hc
  unfold Protocol.read
  simp only [hheight, hspend, hlinked.constants_eq n (Nat.le_of_lt hn), hparse]
  have hsame : ∀ ws, ws <+: P.store c.spends[n].pending c.spends[n].height →
      db.SameCoins (runWrites ws db) := fun ws hws =>
    Db.SameCoins.runWrites (fun w hw => K.store_sameCoins _ _ w (hws.subset hw)) db
  refine ⟨fun ws hws => ?_, n + 1, hn, (c.coinAt_succ hn).symm, K.store_after hc hn hpos h.base hat,
    ?_, fun _ => Nat.succ_pos n, Or.inr ⟨n, rfl, ?_⟩, nofun⟩
  · obtain ⟨hbase, hat'⟩ := K.store_before hc hn hpos h.base hat ws hws
    refine h.slots (hsame ws hws) hbase fun r hr hr0 m hm hcoin => ?_
    -- the coin saved as unspent is the one whose spend is stored
    have hid : (c.coinAt (m + 1)).coin.coinId = (c.coinAt n).coin.coinId := by
      rw [← hcoin, hunspent r hr hr0]
    have heq : m + 1 = n := hlinked.coinId_inj _ hm _ (Nat.le_of_lt hn) hid
    rw [heq]
    exact hat'
  · rw [(hsame _ (List.prefix_refl _)).savedConstants_eq, hconstants]
  · exact (hsame _ (List.prefix_refl _)).unspentIs hunspent

/-- **Every step keeps what holds of the database and of the stage.** -/
theorem Keeper.step_inv (hc : Valid c) (hnode : Serves P node c) {stage : Stage V L}
    (h : Stored P Base At c db) (hstage : StageInv P Valid Base At c stage db) :
    Stored P Base At c (P.step node (db, stage)).1 ∧
      StageInv P Valid Base At c (P.step node (db, stage)).2 (P.step node (db, stage)).1 := by
  cases stage with
  | starting => exact ⟨h, K.start_inv hc hnode h⟩
  | writing ws next =>
      cases ws with
      | nil => exact ⟨h, hstage.2⟩
      | cons w ws =>
          refine ⟨hstage.1 [w] (List.prefix_append [w] ws), fun ws' hws' => ?_, hstage.2⟩
          exact hstage.1 (w :: ws') (List.prefix_cons_inj w |>.2 hws')
  | fetching registry skipSave walked => exact ⟨h, K.fetch_inv hc hnode h hstage⟩
  | reading registry record walked => exact ⟨h, K.read_inv hc hnode h hstage⟩
  | finishing registry walked =>
      refine ⟨h, ?_⟩
      obtain ⟨c₀, hc₀, hg₀, rfl, hbase, hat⟩ := hstage
      show StageInv P Valid Base At c (.done (P.finish node c₀.tip walked)) db
      cases hresult : P.finish node c₀.tip walked with
      | error e => trivial
      | ok result =>
          exact ⟨c₀, hc₀, ⟨c, node, walked, hg₀, .refl c, hnode, hresult⟩, hbase, hat⟩
  | done result => exact ⟨h, hstage⟩

/-- **This holds whatever runs there were.** -/
theorem Reaches.inv {s : Db V × Stage V L} (h : Reaches P Valid c s) :
    Valid c ∧ Stored P Base At c s.1 ∧ StageInv P Valid Base At c s.2 s.1 := by
  induction h with
  | init hc => exact ⟨hc, K.stored_empty hc, trivial⟩
  | step _ hc' hg hnode ih =>
      obtain ⟨hc, hstored, hstage⟩ := ih
      exact ⟨hc', K.step_inv hc' hnode (K.stored_continues hc hc' hg.continues hstored)
        (K.stageInv_continues hc hc' hg hstage)⟩
  | restart _ ih => exact ⟨ih.1, ih.2.1, trivial⟩

end

/-! ## A sync is done -/

/-- Some number of steps leads from one state to the other. -/
def Leads (P : Protocol Sp V L) (node : Node Sp) (s s' : Db V × Stage V L) : Prop :=
  ∃ n, (P.step node)^[n] s = s'

section

variable {s s' s'' : Db V × Stage V L}

theorem Leads.trans (h : Leads P node s s') (h' : Leads P node s' s'') : Leads P node s s'' := by
  obtain ⟨n, rfl⟩ := h
  obtain ⟨m, rfl⟩ := h'
  exact ⟨m + n, Function.iterate_add_apply ..⟩

theorem leads_step (P : Protocol Sp V L) (node : Node Sp) (s : Db V × Stage V L) :
    Leads P node s (P.step node s) := ⟨1, rfl⟩

theorem leads_writing (P : Protocol Sp V L) (node : Node Sp) (ws : List (Write V))
    (next : Stage V L) (db : Db V) :
    Leads P node (db, .writing ws next) (runWrites ws db, next) := by
  induction ws generalizing db with
  | nil => exact leads_step P node _
  | cons w ws ih => exact (leads_step P node _).trans (ih (w db))

/-- A state that is done stays so, so the result of a sync is one. -/
theorem Leads.unique {db₁ db₂ : Db V} {r₁ r₂ : Except CliError (SyncResult L)}
    (h₁ : Leads P node s (db₁, .done r₁)) (h₂ : Leads P node s (db₂, .done r₂)) :
    db₁ = db₂ ∧ r₁ = r₂ := by
  have hstays : ∀ n (db : Db V) r, (P.step node)^[n] (db, .done r) = (db, .done r) := by
    intro n db r
    induction n with
    | zero => rfl
    | succ n ih => rw [Function.iterate_succ_apply]; exact ih
  obtain ⟨n, hn⟩ := h₁
  obtain ⟨m, hm⟩ := h₂
  have hsame : ((db₁, .done r₁) : Db V × Stage V L) = (db₂, .done r₂) := by
    rcases le_total n m with hle | hle
    · rw [← Nat.sub_add_cancel hle, Function.iterate_add_apply, hn, hstays] at hm
      exact hm
    · rw [← Nat.sub_add_cancel hle, Function.iterate_add_apply, hm, hstays] at hn
      exact hn.symm
  obtain ⟨rfl, hstage⟩ := Prod.mk.inj hsame
  exact ⟨rfl, Stage.done.inj hstage⟩

end

theorem Chain.Grows.length_eq {launcherId : Bytes} (hlinked : c'.Linked launcherId)
    (h : c.Grows c') (htip : c'.tip = c.tip) : c.length = c'.length := by
  refine hlinked.coinId_inj _ h.continues.length_le _ le_rfl ?_
  rw [h.continues.coinAt_eq le_rfl]
  exact (congrArg (fun r => r.coin.coinId) htip).symm

/-- The sync returns the tip, or what the mempool makes of it, and knows the slots. -/
def Completes (P : Protocol Sp V L) (Base : Chain V L → Db V → Prop)
    (At : Chain V L → ℕ → Db V → Prop) (node : Node Sp) (c : Chain V L)
    (s : Db V × Stage V L) : Prop :=
  ∃ db' walked result, Leads P node s (db', .done (.ok result)) ∧
    P.finish node c.tip walked = .ok result ∧ Stored P Base At c db' ∧ At c c.length db'

theorem Completes.of_leads {s s' : Db V × Stage V L} (h : Leads P node s s')
    (h' : Completes P Base At node c s') : Completes P Base At node c s := by
  obtain ⟨db', walked, result, hleads, hrest⟩ := h'
  exact ⟨db', walked, result, h.trans hleads, hrest⟩

theorem Serves.exists_finish (hnode : Serves P node c) (hlinked : c.Linked P.launcherId)
    (walked : List (SpentTransition L)) : ∃ result, P.finish node c.tip walked = .ok result := by
  unfold Protocol.finish
  cases hitem : node.mempoolItem c.tip.coin.coinId with
  | none => exact ⟨_, rfl⟩
  | some item =>
      obtain ⟨found, hfound⟩ := hnode.mempool item hitem
      have hconstants : c.tip.constants = c.first.constants := hlinked.constants_eq _ le_rfl
      simp only [hconstants, hfound]
      exact ⟨_, rfl⟩

section

variable (K : Keeper P Valid Base At)
include K

/-- Two steps and some writes lead from a stage to the one after the writes. -/
theorem Keeper.stored_writing (hc : Valid c) (hnode : Serves P node c) {stage : Stage V L}
    {ws : List (Write V)} {next : Stage V L} (h : Stored P Base At c db)
    (hstage : StageInv P Valid Base At c stage db)
    (hstep : P.step node (db, stage) = (db, .writing ws next)) :
    Leads P node (db, stage) (runWrites ws db, next) ∧ Stored P Base At c (runWrites ws db) ∧
      StageInv P Valid Base At c next (runWrites ws db) := by
  obtain ⟨-, hwriting⟩ := K.step_inv hc hnode h hstage
  rw [hstep] at hwriting
  refine ⟨?_, hwriting.1 ws (List.prefix_refl _), hwriting.2⟩
  have hfirst := leads_step P node (db, stage)
  rw [hstep] at hfirst
  exact hfirst.trans (leads_writing P node ws next db)

/-- The walk from a coin to the tip. -/
theorem Keeper.completes_fetching (hc : Valid c) (hnode : Serves P node c) {n : ℕ}
    (hn : n ≤ c.length) {skipSave : Bool} {walked : List (SpentTransition L)}
    (h : Stored P Base At c db)
    (hstage : StageInv P Valid Base At c (.fetching (c.coinAt n) skipSave walked) db) :
    Completes P Base At node c (db, .fetching (c.coinAt n) skipSave walked) := by
  have hlinked := K.linked hc
  induction hk : c.length - n generalizing n db skipSave walked with
  | zero =>
      obtain rfl : n = c.length := by omega
      obtain ⟨record, hrecord, -, hspent, -⟩ := hnode.tip
      have hstep : P.step node (db, .fetching c.tip skipSave walked) = (db, .writing
          (if skipSave then [] else saveSingletonCoin c.tip.constants.launcherId record)
          (.finishing c.tip walked)) := by
        show (db, Protocol.fetch node c.tip skipSave walked) = _
        unfold Protocol.fetch
        simp only [hrecord, hspent, Bool.false_eq_true, if_false]
      obtain ⟨hleads, hstored, c₀, hc₀, hg₀, htip, -, hat⟩ := K.stored_writing hc hnode h hstage hstep
      have hlength := hg₀.length_eq hlinked htip
      rw [hlength] at hat
      have hat' := K.at_continues hc₀ hc hg₀.continues hlength.ge hat
      obtain ⟨result, hresult⟩ := hnode.exists_finish hlinked walked
      refine ⟨_, walked, result, hleads.trans ?_, hresult, hstored, hat'⟩
      rw [← hresult]
      exact leads_step P node _
  | succ k ih =>
      have hlt : n < c.spends.length := by
        have hlength : c.length = c.spends.length := rfl
        omega
      obtain ⟨record, spend, hrecord, -, hspent, hheight, -, -, hspend, hparse, -⟩ :=
        hnode.spent n hlt
      have hfetch : P.step node (db, .fetching (c.coinAt n) skipSave walked) = (db, .writing
          (if skipSave then [] else saveSingletonCoin (c.coinAt n).constants.launcherId record)
          (.reading (c.coinAt n) record walked)) := by
        show (db, Protocol.fetch node (c.coinAt n) skipSave walked) = _
        unfold Protocol.fetch
        simp only [hrecord, hspent, if_true]
      obtain ⟨hleads, hstored, hreading⟩ := K.stored_writing hc hnode h hstage hfetch
      have hread : ∀ db' : Db V, P.step node (db', .reading (c.coinAt n) record walked)
          = (db', .writing (P.store c.spends[n].pending c.spends[n].height)
            (.fetching (c.coinAt (n + 1)) false
              (walked ++ [⟨c.spends[n].height, c.spends[n].pending.logs⟩]))) := by
        intro db'
        show (db', P.read node (c.coinAt n) record walked) = _
        unfold Protocol.read
        simp only [hheight, hspend, hlinked.constants_eq n hn, hparse, c.coinAt_succ hlt]
      obtain ⟨hleads', hstored', hfetching⟩ := K.stored_writing hc hnode hstored hreading (hread _)
      exact .of_leads (hleads.trans hleads') (ih hlt hstored' hfetching (by omega))

/-- **A sync is done after finitely many steps**, if the node answers. -/
theorem Keeper.completes (hc : Valid c) (hnode : Serves P node c) (h : Stored P Base At c db) :
    Completes P Base At node c (db, .starting) := by
  have hstart : Leads P node (db, .starting) (db, P.start node db) := leads_step P node _
  refine .of_leads hstart ?_
  have hinv := K.start_inv hc hnode h
  unfold Protocol.start at hinv ⊢
  cases hresume : resumeFromSavedTip (db.getLastUnspentSingletonCoin P.launcherId)
      (P.savedConstants db) with
  | some resumed =>
      obtain ⟨parentCoinId, constants⟩ := resumed
      obtain ⟨n, hn, rfl, rfl, -⟩ := h.exists_resumed hresume
      simp only [hresume, hnode.resume_eq hn] at hinv ⊢
      exact K.completes_fetching hc hnode hn h hinv
  | none =>
      simp only [hresume, hnode.launch_eq] at hinv ⊢
      refine .of_leads (leads_writing P node _ _ db) ?_
      exact K.completes_fetching hc hnode (Nat.zero_le _) (hinv.1 _ (List.prefix_refl _)) hinv.2

end

end SlotMachine.Sync
