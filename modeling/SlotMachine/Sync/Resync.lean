import SlotMachine.Sync.Mirror

/-!
# Syncs of a chain that reorganises

The sync takes up a registry at the coin it saved last.  It never looks back: what it
wrote for a spend stays, whether the spend is still in a block or not.

* `Synced` — runs of a sync, one after the other, each against the chain of its time.
* `InOrder` — slots are spent after they are created, also those of one handle.
* `Exact` — the tables have the live slots, and no others.
* `ReorgExample` — a registry with one spend, before it, after it and in a later block.
* `synced_exact` — **as long as no spend is lost, every run returns the tip and leaves the
  live slots**.
* `synced_fails` — a run after the loss of a spend fails.
-/

namespace SlotMachine.Sync

open Journal Listener

/-! ## Runs against chains that change -/

/-- **Runs of a sync, one after the other.**  Each is run to its end, against a node that
knows the chain of its time; `Next` says how the chain may change between two runs. -/
inductive Synced {Sp V L : Type} (P : Protocol Sp V L) (Valid : Chain V L → Prop)
    (Next : Chain V L → Chain V L → Prop) :
    Chain V L → Db V × Except CliError (SyncResult L) → Prop where
  | first {c : Chain V L} {node : Node Sp} {db : Db V} {result : Except CliError (SyncResult L)} :
      Valid c → Serves P node c → Leads P node (.empty, .starting) (db, .done result) →
      Synced P Valid Next c (db, result)
  | again {c c' : Chain V L} {node : Node Sp} {db db' : Db V}
      {before result : Except CliError (SyncResult L)} : Synced P Valid Next c (db, before) →
      Valid c' → Next c c' → Serves P node c' →
      Leads P node (db, .starting) (db', .done result) → Synced P Valid Next c' (db', result)

section

variable {Sp V L : Type} {P : Protocol Sp V L} {Valid : Chain V L → Prop}
variable {Base : Chain V L → Db V → Prop} {At : Chain V L → ℕ → Db V → Prop} {c : Chain V L}
variable {db db' : Db V} {node : Node Sp} {result : Except CliError (SyncResult L)}

/-- A run that is done has returned the tip, and knows the slots. -/
theorem Keeper.of_leads (K : Keeper P Valid Base At) (hc : Valid c) (hnode : Serves P node c)
    (h : Stored P Base At c db) (hleads : Leads P node (db, .starting) (db', .done result)) :
    Stored P Base At c db' ∧ At c c.length db' ∧ ∃ res, result = .ok res ∧ P.ReturnsTip c c res := by
  obtain ⟨db'', walked, res, hleads', hresult, hstored, hat⟩ := K.completes hc hnode h
  obtain ⟨rfl, rfl⟩ := hleads.unique hleads'
  exact ⟨hstored, hat, res, rfl, c, node, walked, .refl c, .refl c, hnode, hresult⟩

/-- **What holds after every run**, as long as no spend is lost. -/
theorem Synced.inv (K : Keeper P Valid Base At)
    (h : Synced P Valid Chain.Continues c (db, result)) :
    Valid c ∧ Stored P Base At c db ∧ At c c.length db ∧
      ∃ res, result = .ok res ∧ P.ReturnsTip c c res := by
  generalize hs : (db, result) = s at h
  induction h generalizing db result with
  | first hc hnode hleads =>
      obtain ⟨rfl, rfl⟩ := Prod.mk.inj hs
      exact ⟨hc, K.of_leads hc hnode (K.stored_empty hc) hleads⟩
  | again _ hc' hg hnode hleads ih =>
      obtain ⟨rfl, rfl⟩ := Prod.mk.inj hs
      obtain ⟨hc, hstored, -⟩ := ih rfl
      exact ⟨hc', K.of_leads hc' hnode (K.stored_continues hc hc' hg hstored) hleads⟩

end

/-! ## The live slots -/

/-- **Slots are spent after they are created**: no spend needs the slot of a later one, and
the slot of a handle that was created last is not spent. -/
structure InOrder (c : Chain HandleSlotValue ActionLog) : Prop where
  ordered : Ordered c.values c.entries
  current : ∀ handleHash, IsCurrent c handleHash

/-- **The tables have the live slots**: as rows that are not marked, and in the index. -/
structure Exact (launcherId : Bytes) (nonce : ℕ) (c : Chain HandleSlotValue ActionLog)
    (live : Multiset HandleSlotValue) (db : Db HandleSlotValue) : Prop where
  unspent : ∀ s, (∃ r ∈ db.slots, r.slot = s ∧ r.spentBlockHeight = 0) ↔
    s ∈ c.issued handleTreeHash nonce ∧ s.value ∈ live
  indexed : ∀ e, e ∈ db.xchandlesIndexed ↔ ∃ v ∈ live, e = handleEntry launcherId v

section

variable {launcherId : Bytes} {nonce : ℕ} {c : Chain HandleSlotValue ActionLog}
variable {db : Db HandleSlotValue} {live : Multiset HandleSlotValue}

theorem HandlesAt.exact_tables (hc : HandleChain launcherId nonce c)
    (hbase : HandlesBase launcherId nonce c db) (hat : HandlesAt launcherId nonce c c.length db)
    (hmarked : Marked c c.length db) (hjournal : IsJournal HandleSlotValue.handleHash
      (fun v => (v.counter : ℤ)) c.values c.entries live) (hcurrent : ∀ k, IsCurrent c k) :
    Exact launcherId nonce c live db := by
  have hentry : ∀ e ∈ db.xchandlesIndexed, ∃ v ∈ live, e = handleEntry launcherId v := by
    intro e he
    obtain ⟨v, rfl, hlast⟩ := hat.entry he
    exact ⟨v, hjournal.mem_live.2 ⟨(mem_of_lastWith hlast).1, hcurrent _ v hlast⟩, rfl⟩
  refine ⟨fun s => ⟨?_, ?_⟩, fun e => ⟨hentry e, ?_⟩⟩
  · rintro ⟨r, hr, rfl, hunspent⟩
    have hissued := hbase.rows r hr
    obtain ⟨-, -, -, hcreated⟩ := hc.of_mem_issued hissued
    refine ⟨hissued, hjournal.mem_live.2 ⟨hcreated, fun hspent => ?_⟩⟩
    rw [← c.spentBy_length] at hspent
    exact hmarked r hr hspent hunspent
  · rintro ⟨hissued, hlive⟩
    obtain ⟨r, hr, rfl⟩ := hat.stored s hissued
    refine ⟨r, hr, rfl, ?_⟩
    by_contra hspent
    exact (hjournal.mem_live.1 hlive).2 (hbase.marked r hr hspent)
  · rintro ⟨v, hv, rfl⟩
    have hcreated := (hjournal.mem_live.1 hv).1
    rw [← c.createdBy_length] at hcreated
    obtain ⟨e, he, hkey⟩ := hat.present v hcreated
    obtain ⟨w, hw, rfl⟩ := hentry e he
    have hsame : w = v := hjournal.eq_of_key hw hv (congrArg Prod.snd hkey)
    exact hsame ▸ he

end

/-! ## A spend, as an example -/

namespace ReorgExample

open BumpExample

/-- The sync of the registry of the other example. -/
abbrev sync : Protocol ParsedSpend HandleSlotValue ActionLog :=
  syncXchandlesDetailed driver launcherId

/-- The low sentinel is announced once, at some height. -/
def announced (height : ℕ) : Option (ℕ × List HandleSlotValue) := some (height, [low 0])

theorem history_announced (height : ℕ) : BumpExample.History (chain (announced height)) := by
  refine history_some height (List.cons_ne_nil _ _) ?_
    (Settlement.settles_replace (coin (low 0)) (coin (low 1)) {coin high})
  intro v hv
  obtain rfl := List.mem_singleton.1 hv
  exact possible_low (by omega)

theorem serves_none : Serves sync (node none) (chain none) :=
  serves fun _ hx => absurd hx (Option.not_mem_none _)

theorem serves_announced {height : ℕ} (h : 0 < height) :
    Serves sync (node (announced height)) (chain (announced height)) := by
  refine serves fun x hx => ?_
  rw [← Option.some.inj hx]
  exact h

/-- The database after a sync that knows the announcement. -/
def synced : Db HandleSlotValue := ((sync.step (node (announced 100)))^[19] (.empty, .starting)).1

theorem leads_announced : Leads sync (node (announced 100)) (.empty, .starting)
    (synced, .done (.ok ⟨second, [⟨100, [log (low 0)]⟩]⟩)) :=
  ⟨19, rfl⟩

/-- **The parent of the saved tip is not spent any more**, and the sync fails. -/
theorem leads_lost : Leads sync (node none) (synced, .starting)
    (synced, .done (.error (.coinNotSpent first.coin.coinId))) :=
  ⟨1, rfl⟩

theorem inOrder_none : InOrder (chain none) where
  ordered := by
    intro n
    have htake : (chain none).entries.take n = [] := List.take_nil
    rw [htake]
    exact List.nil_subset _
  current := fun _ _ _ hspent => absurd hspent List.not_mem_nil

theorem inOrder_announced (height : ℕ) : InOrder (chain (announced height)) where
  ordered := by
    intro n
    cases n with
    | zero => exact List.nil_subset _
    | succ n =>
        have htake : (chain (announced height)).entries.take (n + 1)
            = (chain (announced height)).entries := List.take_of_length_le (Nat.le_add_left 1 n)
        rw [htake]
        intro v hv
        obtain rfl : v = low 0 := List.mem_singleton.1 hv
        exact List.mem_cons_self ..
  current := by
    intro k v hlast hspent
    obtain rfl : v = low 0 := List.mem_singleton.1 hspent
    obtain ⟨-, rfl⟩ := mem_of_lastWith hlast
    -- the slot with the next counter comes after it
    have hnext : lastWith HandleSlotValue.handleHash (low 0).handleHash
        (created (chain (announced height)).values (chain (announced height)).entries)
          = some (low 1) := by
      show lastWith HandleSlotValue.handleHash (low 0).handleHash [low 0, high, low 1] = _
      decide
    rw [hnext] at hlast
    exact absurd (congrArg HandleSlotValue.counter (Option.some.inj hlast)) (by decide)

/-- The database after a sync before the announcement, and after one more. -/
def fresh : Db HandleSlotValue := ((sync.step (node none))^[10] (.empty, .starting)).1

def resynced : Db HandleSlotValue := ((sync.step (node (announced 100)))^[18] (fresh, .starting)).1

/-- The database after one that finds the announcement in another block. -/
def moved : Db HandleSlotValue := ((sync.step (node (announced 104)))^[6] (resynced, .starting)).1

theorem leads_fresh : Leads sync (node none) (.empty, .starting)
    (fresh, .done (.ok ⟨first, []⟩)) :=
  ⟨10, rfl⟩

theorem leads_resynced : Leads sync (node (announced 100)) (fresh, .starting)
    (resynced, .done (.ok ⟨second, [⟨100, [log (low 0)]⟩]⟩)) :=
  ⟨18, rfl⟩

theorem leads_moved : Leads sync (node (announced 104)) (resynced, .starting)
    (moved, .done (.ok ⟨second, []⟩)) :=
  ⟨6, rfl⟩

theorem continues (height : ℕ) : (chain none).Continues (chain (announced height)) where
  first_eq := rfl
  slots_eq := rfl
  isPrefix := List.nil_prefix

/-- The announcement is there, whatever the block. -/
theorem continues_moved (height height' : ℕ) :
    (chain (announced height)).Continues (chain (announced height')) where
  first_eq := rfl
  slots_eq := rfl
  isPrefix := List.prefix_refl _

end ReorgExample

/-! ## When the sync survives -/

section

variable {M : Machine} {K : Xchandles.Constants} {S : Xchandles.Sentinels}
variable {low high : HandleSlotValue} {r₀ : Registry} {c : Chain HandleSlotValue ActionLog}
variable {db : Db HandleSlotValue} {Sp : Type}
variable {result : Except CliError (SyncResult ActionLog)}

/-- **As long as no spend is lost**, and slots are spent after they are created, every run
is done after finitely many steps, returns the tip, and leaves exactly the live slots. -/
theorem synced_exact (D : XchandlesDriver Sp) (launcherId : Bytes)
    (h0 : Launched M K S low high r₀) (h : Synced (syncXchandlesDetailed D launcherId)
      (fun c => HandleHistory M K low high r₀ launcherId D.handleNonce c ∧ InOrder c)
      Chain.Continues c (db, result)) :
    (∃ res, result = .ok res ∧ (syncXchandlesDetailed D launcherId).ReturnsTip c c res) ∧
    (∃ live, OnChain M K r₀ low high c live ∧ Exact launcherId D.handleNonce c live db) ∧
    ∀ c' node, HandleHistory M K low high r₀ launcherId D.handleNonce c' ∧ InOrder c' →
      c.Continues c' → Serves (syncXchandlesDetailed D launcherId) node c' →
      ∃ db' result', Leads (syncXchandlesDetailed D launcherId) node (db, .starting)
        (db', .done result') := by
  have hkeeper : Keeper (syncXchandlesDetailed D launcherId)
      (fun c => HandleHistory M K low high r₀ launcherId D.handleNonce c ∧ InOrder c)
      (HandlesBase launcherId D.handleNonce)
      (fun c n db => HandlesAt launcherId D.handleNonce c n db ∧ Marked c n db) :=
    (markedKeeper D launcherId).mono fun hc => ⟨hc.1.handleChain h0, hc.2.ordered⟩
  obtain ⟨hc, hstored, hat, hresult⟩ := h.inv hkeeper
  refine ⟨hresult, ?_, fun c' node hc' hg hnode => ?_⟩
  · obtain ⟨live, hlive, hjournal, -⟩ := hc.1.exists_live h0
    exact ⟨live, hlive, hat.1.exact_tables (hc.1.handleChain h0) hstored.base hat.2 hjournal
      hc.2.current⟩
  · obtain ⟨db', walked, res, hleads, -⟩ :=
      hkeeper.completes hc' hnode (hkeeper.stored_continues hc hc' hg hstored)
    exact ⟨db', _, hleads⟩

end

open BumpExample ReorgExample in
/-- The theorem at the example: a sync before the announcement, one after it, and one after a
reorganisation that moves it to a later block. -/
theorem synced_exact_moved :
    (∃ res, (.ok ⟨second, []⟩ : Except CliError (SyncResult ActionLog)) = .ok res ∧
      sync.ReturnsTip (chain (announced 104)) (chain (announced 104)) res) ∧
    (∃ live, OnChain machine Xchandles.Example.constants
        (registryOf {coin (low 0), coin high}) (low 0) high (chain (announced 104)) live ∧
      Exact launcherId driver.handleNonce (chain (announced 104)) live moved) ∧
    ∀ c' node, BumpExample.History c' ∧ InOrder c' → (chain (announced 104)).Continues c' →
      Serves sync node c' → ∃ db' result', Leads sync node (moved, .starting) (db', .done result') :=
  synced_exact driver launcherId launched
    (.again
      (.again (.first ⟨history_none, inOrder_none⟩ serves_none leads_fresh)
        ⟨history_announced 100, inOrder_announced 100⟩ (continues 100)
        (serves_announced (Nat.succ_pos _)) leads_resynced)
      ⟨history_announced 104, inOrder_announced 104⟩ (continues_moved 100 104)
      (serves_announced (Nat.succ_pos _)) leads_moved)

open BumpExample ReorgExample in
/-- **A sync after the loss of a spend fails**: the coin saved as the tip is gone, and its
parent is not spent. -/
theorem synced_fails : ∃ c s, Synced sync BumpExample.History (fun _ _ => True) c s ∧
    s.2 = .error (.coinNotSpent first.coin.coinId) :=
  ⟨chain none, _, .again (.first (history_announced 100) (serves_announced (Nat.succ_pos _))
    leads_announced) history_none trivial serves_none leads_lost, rfl⟩

end SlotMachine.Sync
