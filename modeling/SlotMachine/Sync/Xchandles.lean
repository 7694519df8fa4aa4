import SlotMachine.Listener.ActionLog
import SlotMachine.Listener.History
import SlotMachine.Sync.Issued

/-!
# The sync of an XCHandles registry

`sync_xchandles_detailed` saves every handle slot that a spend creates, and then
marks the ones that it spent, by the hash of their value.  The index has the hash
of the slot that was created last for a handle, in the order of the actions.

* `syncXchandlesDetailed` — the protocol of the sync.
* `HandlesBase`, `HandlesAt` — what the tables have at all times, and after some
  spends.
* `handleKeeper` — **the writes keep this**.
* `markedKeeper` — what is spent is marked, if nothing is spent before it is created.
-/

namespace SlotMachine.Sync

open Journal Listener

/-- The tree hash of a handle slot. -/
def handleTreeHash (v : HandleSlotValue) : Bytes := (HashOracle.sha256.treeHash v.toClvm).getD []

/-! ## The protocol -/

/-- What the sync takes of the driver. -/
structure XchandlesDriver (Sp : Type) where
  /-- `XchandlesSlotNonce::HANDLE`. -/
  handleNonce : ℕ
  fromLauncherSolution : Coin → Sp →
    Except CliError (Option (RegistryCoin × Slot HandleSlotValue × Slot HandleSlotValue))
  fromParentSpend : Sp → RegistryConstants → Except CliError (Option RegistryCoin)
  fromSpend : Sp → RegistryConstants →
    Except CliError (Option (PendingSpend HandleSlotValue ActionLog))
  fromMempoolItem : Sp → RegistryConstants → Except CliError (Option RegistryCoin)

section

variable {Sp : Type} (D : XchandlesDriver Sp) (launcherId : Bytes)

/-- `xchandles_registry_from_launcher`. -/
def xchandlesRegistryFromLauncher (node : Node Sp) :
    Except CliError (RegistryCoin × List (Slot HandleSlotValue)) := do
  let some record := node.coinRecord launcherId | .error (.coinNotFound launcherId)
  let some spend := node.puzzleAndSolution launcherId record.spentBlockIndex
    | .error (.coinNotSpent launcherId)
  let some (registry, left, right) ← D.fromLauncherSolution record.coin spend
    | .error (.coinNotFound launcherId)
  return (registry, [left, right])

/-- The initial slots are saved and indexed. -/
def storeInitialHandleSlots (slots : List (Slot HandleSlotValue)) : List (Write HandleSlotValue) :=
  slots.flatMap fun s =>
    [fun db => db.saveSlot s 0,
      fun db => db.saveXchandlesIndexedSlotValue s.launcherId s.value.handleHash s.valueHash]

/-- The created slots are indexed and saved, and then the spent ones are marked. -/
def storeHandleSlots (pending : PendingSpend HandleSlotValue ActionLog) (height : ℕ) :
    List (Write HandleSlotValue) :=
  (pending.created.flatMap fun v =>
    [fun db => db.saveXchandlesIndexedSlotValue pending.registry.constants.launcherId v.handleHash
        (handleTreeHash v),
      fun db => db.saveSlot (pending.registry.slot handleTreeHash D.handleNonce v) 0])
  ++ pending.spent.map fun v => fun db =>
    db.markSlotAsSpent launcherId D.handleNonce (handleTreeHash v) height

/-- `sync_xchandles_detailed`. -/
def syncXchandlesDetailed : Protocol Sp HandleSlotValue ActionLog where
  launcherId := launcherId
  given := none
  launch := xchandlesRegistryFromLauncher D launcherId
  storeInitial := storeInitialHandleSlots
  fromParentSpend := D.fromParentSpend
  fromSpend := D.fromSpend
  fromMempoolItem := D.fromMempoolItem
  store := storeHandleSlots D launcherId
  unparsed := "Could not parse new XCHandles registry spend"

end

/-! ## What the tables have -/

/-- A chain whose handle slots are a journal. -/
abbrev HandleChain (launcherId : Bytes) (nonce : ℕ) (c : Chain HandleSlotValue ActionLog) : Prop :=
  SlotChain HandleSlotValue.handleHash (fun v => (v.counter : ℤ)) handleTreeHash launcherId nonce c

/-- The entry of a slot in the index. -/
def handleEntry (launcherId : Bytes) (v : HandleSlotValue) : (Bytes × Bytes) × Bytes :=
  ((launcherId, v.handleHash), handleTreeHash v)

/-- **What the tables have at all times**: slots of the chain, of which only spent
ones are marked. -/
structure HandlesBase (launcherId : Bytes) (nonce : ℕ) (c : Chain HandleSlotValue ActionLog)
    (db : Db HandleSlotValue) : Prop where
  rows : ∀ r ∈ db.slots, r.slot ∈ c.issued handleTreeHash nonce
  marked : ∀ r ∈ db.slots, r.spentBlockHeight ≠ 0 → r.slot.value ∈ spent c.entries
  indexed : ∀ e ∈ db.xchandlesIndexed, ∃ v ∈ created c.values c.entries,
    e = handleEntry launcherId v

/-- **What the tables have after `n` spends**: all slots there have been, and for
every handle the last one, or one that is created later. -/
structure HandlesAt (launcherId : Bytes) (nonce : ℕ) (c : Chain HandleSlotValue ActionLog) (n : ℕ)
    (db : Db HandleSlotValue) : Prop where
  stored : ∀ s ∈ c.issuedBy handleTreeHash nonce n, ∃ r ∈ db.slots, r.slot = s
  present : ∀ v ∈ c.createdBy n, ∃ e ∈ db.xchandlesIndexed, e.1 = (launcherId, v.handleHash)
  indexed : ∀ e ∈ db.xchandlesIndexed, ∃ v, e = handleEntry launcherId v ∧
    (lastWith HandleSlotValue.handleHash v.handleHash (c.createdBy n) = some v ∨
      v ∈ c.createdAfter n)

section

variable {launcherId : Bytes} {nonce n height : ℕ} {c c' : Chain HandleSlotValue ActionLog}
variable {db db' : Db HandleSlotValue} {s : Slot HandleSlotValue} {v : HandleSlotValue}

/-! ## Single writes -/

theorem HandlesBase.saveSlot (hc : HandleChain launcherId nonce c)
    (hs : s ∈ c.issued handleTreeHash nonce) (h : HandlesBase launcherId nonce c db) :
    HandlesBase launcherId nonce c (db.saveSlot s 0) where
  rows := hc.forall_saveSlot h.rows hs (fun r hr _ => h.rows r hr) hs
  marked := hc.forall_saveSlot h.rows hs (fun r hr _ => h.marked r hr) fun hne => absurd rfl hne
  indexed := h.indexed

theorem HandlesBase.saveIndexed (hv : v ∈ created c.values c.entries)
    (h : HandlesBase launcherId nonce c db) : HandlesBase launcherId nonce c
      (db.saveXchandlesIndexedSlotValue launcherId v.handleHash (handleTreeHash v)) where
  rows := h.rows
  marked := h.marked
  indexed := Table.forall_upsert (fun e he _ => h.indexed e he)
    (fun _ _ hkey => ⟨v, hv, Prod.ext hkey rfl⟩) ⟨v, hv, rfl⟩

theorem HandlesBase.mark (hc : HandleChain launcherId nonce c) (hv : v ∈ spent c.entries)
    (h : HandlesBase launcherId nonce c db) : HandlesBase launcherId nonce c
      (db.markSlotAsSpent launcherId nonce (handleTreeHash v) height) where
  rows := hc.forall_markSlotAsSpent h.rows (hc.mem_created_of_spent hv) (fun r hr _ => h.rows r hr)
    fun r hr _ => h.rows r hr
  marked := hc.forall_markSlotAsSpent h.rows (hc.mem_created_of_spent hv)
    (fun r hr _ => h.marked r hr) fun _ _ hvalue _ => hvalue ▸ hv
  indexed := h.indexed

theorem HandlesAt.saveSlot (h : HandlesAt launcherId nonce c n db) :
    HandlesAt launcherId nonce c n (db.saveSlot s 0) where
  stored := fun s' hs' => Table.exists_upsert_of_exists (h.stored s' hs') fun _ h => h
  present := h.present
  indexed := h.indexed

theorem HandlesAt.saveIndexed (hv : v ∈ c.createdAfter n) (h : HandlesAt launcherId nonce c n db) :
    HandlesAt launcherId nonce c n
      (db.saveXchandlesIndexedSlotValue launcherId v.handleHash (handleTreeHash v)) where
  stored := h.stored
  present := fun w hw => Table.exists_upsert_of_exists (h.present w hw) fun _ h => h
  indexed := Table.forall_upsert (fun e he _ => h.indexed e he)
    (fun _ _ hkey => ⟨v, Prod.ext hkey rfl, Or.inr hv⟩) ⟨v, rfl, Or.inr hv⟩

theorem HandlesAt.mark (h : HandlesAt launcherId nonce c n db) {d : Bytes} :
    HandlesAt launcherId nonce c n (db.markSlotAsSpent launcherId nonce d height) where
  stored := fun s' hs' => Table.exists_update (h.stored s' hs') fun _ h => h
  present := h.present
  indexed := h.indexed

/-! ## All writes of a spend -/

theorem mem_storeHandleSlots {Sp : Type} {D : XchandlesDriver Sp}
    {pending : PendingSpend HandleSlotValue ActionLog} {w : Write HandleSlotValue}
    (h : w ∈ storeHandleSlots D launcherId pending height) :
    (∃ v ∈ pending.created, (w = fun db => db.saveXchandlesIndexedSlotValue
        pending.registry.constants.launcherId v.handleHash (handleTreeHash v)) ∨
      w = fun db => db.saveSlot (pending.registry.slot handleTreeHash D.handleNonce v) 0) ∨
    ∃ v ∈ pending.spent, w = fun db =>
      db.markSlotAsSpent launcherId D.handleNonce (handleTreeHash v) height := by
  rcases List.mem_append.1 h with h | h
  · obtain ⟨v, hv, hw⟩ := List.mem_flatMap.1 h
    left
    refine ⟨v, hv, ?_⟩
    simpa using hw
  · obtain ⟨v, hv, rfl⟩ := List.mem_map.1 h
    exact Or.inr ⟨v, hv, rfl⟩

/-- What a spend writes into the index. -/
theorem xchandlesIndexed_store {Sp : Type} (D : XchandlesDriver Sp) (launcherId : Bytes)
    (pending : PendingSpend HandleSlotValue ActionLog) (height : ℕ) (db : Db HandleSlotValue) :
    (runWrites (storeHandleSlots D launcherId pending height) db).xchandlesIndexed
      = setAll db.xchandlesIndexed (pending.created.map
          (handleEntry pending.registry.constants.launcherId)) := by
  unfold storeHandleSlots
  rw [runWrites_append]
  have hspent : ∀ (vs : List HandleSlotValue) (db : Db HandleSlotValue),
      (runWrites (vs.map fun v => fun db : Db HandleSlotValue =>
        db.markSlotAsSpent launcherId D.handleNonce (handleTreeHash v) height) db).xchandlesIndexed
        = db.xchandlesIndexed := by
    intro vs
    induction vs with
    | nil => exact fun _ => rfl
    | cons v vs ih => exact fun db => ih _
  rw [hspent]
  induction pending.created generalizing db with
  | nil => rfl
  | cons v vs ih => exact ih _

variable {Sp : Type} {D : XchandlesDriver Sp}

/-- A single write of a spend keeps what the tables have. -/
theorem storeHandleSlots_keep (hc : HandleChain launcherId D.handleNonce c)
    (hn : n < c.spends.length) {w : Write HandleSlotValue}
    (hw : w ∈ storeHandleSlots D launcherId c.spends[n].pending height)
    (h : HandlesBase launcherId D.handleNonce c db ∧ HandlesAt launcherId D.handleNonce c n db) :
    HandlesBase launcherId D.handleNonce c (w db) ∧
      HandlesAt launcherId D.handleNonce c n (w db) := by
  obtain ⟨hbase, hat⟩ := h
  rcases mem_storeHandleSlots hw with ⟨v, hv, rfl | rfl⟩ | ⟨v, hv, rfl⟩
  · have hafter : v ∈ c.createdAfter n := by
      rw [Chain.createdAfter_eq hn]
      exact List.mem_append_left _ hv
    have hcreated : v ∈ created c.values c.entries := by
      rw [c.created_eq n]
      exact List.mem_append_right _ hafter
    simp only [hc.registry_eq hn]
    exact ⟨hbase.saveIndexed hcreated, hat.saveIndexed hafter⟩
  · exact ⟨hbase.saveSlot hc (SlotChain.slot_mem_issued hn hv), hat.saveSlot⟩
  · have hspent : v ∈ spent c.entries := by
      rw [c.spent_eq n, Chain.spentAfter_eq hn]
      exact List.mem_append_right _ (List.mem_append_left _ hv)
    exact ⟨hbase.mark hc hspent, hat.mark⟩

/-- **After the writes of a spend** the tables have what is there after it. -/
theorem HandlesAt.store (hc : HandleChain launcherId D.handleNonce c) (hn : n < c.spends.length)
    (hbase : HandlesBase launcherId D.handleNonce c db)
    (h : HandlesAt launcherId D.handleNonce c n db) :
    HandlesAt launcherId D.handleNonce c (n + 1)
      (runWrites (storeHandleSlots D launcherId c.spends[n].pending height) db) := by
  have hkeep : ∀ w ∈ storeHandleSlots D launcherId c.spends[n].pending height,
      ∀ db, (HandlesBase launcherId D.handleNonce c db ∧ HandlesAt launcherId D.handleNonce c n db) →
        HandlesBase launcherId D.handleNonce c (w db) ∧
          HandlesAt launcherId D.handleNonce c n (w db) :=
    fun w hw db h => storeHandleSlots_keep hc hn hw h
  obtain ⟨-, hafter⟩ := runWrites_keep hkeep ⟨hbase, h⟩ _ (List.prefix_refl _)
  have hregistry := hc.registry_eq hn
  refine ⟨fun s hs => ?_, fun v hv => ?_, fun e he => ?_⟩
  · rw [Chain.issuedBy_succ hn] at hs
    rcases List.mem_append.1 hs with hs | hs
    · exact hafter.stored s hs
    · obtain ⟨v, hv, rfl⟩ := List.mem_map.1 hs
      have hmem : (fun db : Db HandleSlotValue => db.saveSlot
          (c.spends[n].pending.registry.slot handleTreeHash D.handleNonce v) 0)
          ∈ storeHandleSlots D launcherId c.spends[n].pending height :=
        List.mem_append_left _ (List.mem_flatMap.2 ⟨v, hv, by simp⟩)
      refine runWrites_reach (Q := fun db : Db HandleSlotValue => ∃ r ∈ db.slots,
        r.slot = c.spends[n].pending.registry.slot handleTreeHash D.handleNonce v) hkeep
        (fun w hw db _ hstored => ?_) hmem (fun db hdb => ?_) ⟨hbase, h⟩
      · rcases mem_storeHandleSlots hw with ⟨v', -, rfl | rfl⟩ | ⟨v', -, rfl⟩
        · exact hstored
        · exact Table.exists_upsert_of_exists hstored fun _ h => h
        · exact Table.exists_update hstored fun _ h => h
      · obtain ⟨r, hr, heq⟩ := hc.exists_saveSlot hdb.1.rows (SlotChain.slot_mem_issued hn hv) 0
        exact ⟨r, hr, by rw [heq]⟩
  · rw [Chain.createdBy_succ hn] at hv
    rcases List.mem_append.1 hv with hv | hv
    · exact hafter.present v hv
    · have hmem : (fun db : Db HandleSlotValue => db.saveXchandlesIndexedSlotValue
          c.spends[n].pending.registry.constants.launcherId v.handleHash (handleTreeHash v))
          ∈ storeHandleSlots D launcherId c.spends[n].pending height :=
        List.mem_append_left _ (List.mem_flatMap.2 ⟨v, hv, by simp⟩)
      refine runWrites_reach (Q := fun db : Db HandleSlotValue => ∃ e ∈ db.xchandlesIndexed,
        e.1 = (launcherId, v.handleHash)) hkeep (fun w hw db _ hpresent => ?_) hmem
        (fun db _ => ?_) ⟨hbase, h⟩
      · rcases mem_storeHandleSlots hw with ⟨v', -, rfl | rfl⟩ | ⟨v', -, rfl⟩
        · exact Table.exists_upsert_of_exists hpresent fun _ h => h
        · exact hpresent
        · exact hpresent
      · rw [hregistry]
        exact Table.exists_upsert (fun _ _ hkey => hkey) rfl
  · rw [xchandlesIndexed_store, hregistry] at he
    have hlast : ∀ v, lastWith Prod.fst (launcherId, HandleSlotValue.handleHash v)
        (c.spends[n].pending.created.map (handleEntry launcherId))
        = (lastWith HandleSlotValue.handleHash v.handleHash c.spends[n].pending.created).map
            (handleEntry launcherId) := by
      intro v
      rw [lastWith_map]
      unfold lastWith
      simp [handleEntry]
    rcases mem_setAll _ _ e he with hnew | ⟨hold, hnot⟩
    · obtain ⟨w, hw, rfl⟩ := List.mem_map.1 (mem_of_lastWith hnew).1
      have hnew' := (hlast w).symm.trans hnew
      obtain ⟨w', hw', heq⟩ := Option.map_eq_some_iff.1 hnew'
      refine ⟨w', heq.symm, Or.inl ?_⟩
      rw [Chain.createdBy_succ hn, lastWith_append, (mem_of_lastWith hw').2, hw', Option.some_or]
    · obtain ⟨w, rfl, hw⟩ := h.indexed e hold
      have hother : lastWith HandleSlotValue.handleHash w.handleHash c.spends[n].pending.created
          = none := lastWith_eq_none.2 fun v hv heq =>
        hnot _ (List.mem_map_of_mem hv) (by simp [handleEntry, heq])
      refine ⟨w, rfl, hw.imp (fun hw => ?_) fun hw => ?_⟩
      · rw [Chain.createdBy_succ hn, lastWith_append, hother, Option.none_or, hw]
      · rw [Chain.createdAfter_eq hn] at hw
        rcases List.mem_append.1 hw with hw | hw
        · exact absurd rfl (lastWith_eq_none.1 hother w hw)
        · exact hw

/-! ## What runs keep -/

theorem mem_storeInitialHandleSlots {slots : List (Slot HandleSlotValue)} {w : Write HandleSlotValue}
    (h : w ∈ storeInitialHandleSlots slots) : ∃ s ∈ slots, (w = fun db => db.saveSlot s 0) ∨
      w = fun db => db.saveXchandlesIndexedSlotValue s.launcherId s.value.handleHash
        s.valueHash := by
  obtain ⟨s, hs, hw⟩ := List.mem_flatMap.1 h
  exact ⟨s, hs, by simpa using hw⟩

/-- A write of an initial slot keeps what the tables have. -/
theorem storeInitialHandleSlots_keep (hc : HandleChain launcherId nonce c) {w : Write HandleSlotValue}
    (hw : w ∈ storeInitialHandleSlots c.slots) (h : HandlesBase launcherId nonce c db) :
    HandlesBase launcherId nonce c (w db) := by
  obtain ⟨s, hs, rfl | rfl⟩ := mem_storeInitialHandleSlots hw
  · exact h.saveSlot hc (List.mem_append_left _ hs)
  · obtain ⟨hlauncher, -, hhash⟩ := hc.slots_eq s hs
    simp only [hlauncher, hhash]
    exact h.saveIndexed (List.mem_append_left _ (List.mem_map_of_mem hs))

/-- **After the initial writes** the tables have what is there at first. -/
theorem handlesAt_zero (hc : HandleChain launcherId nonce c)
    (hbase : HandlesBase launcherId nonce c db) :
    HandlesAt launcherId nonce c 0 (runWrites (storeInitialHandleSlots c.slots) db) := by
  have hkeep : ∀ w ∈ storeInitialHandleSlots c.slots, ∀ db, HandlesBase launcherId nonce c db →
      HandlesBase launcherId nonce c (w db) :=
    fun w hw db h => storeInitialHandleSlots_keep hc hw h
  have hafter := runWrites_keep hkeep hbase _ (List.prefix_refl _)
  refine ⟨fun s hs => ?_, fun v hv => ?_, fun e he => ?_⟩
  · have hs' : s ∈ c.slots := by simpa [Chain.issuedBy] using hs
    have hmem : (fun db : Db HandleSlotValue => db.saveSlot s 0)
        ∈ storeInitialHandleSlots c.slots := List.mem_flatMap.2 ⟨s, hs', by simp⟩
    refine runWrites_reach (Q := fun db : Db HandleSlotValue => ∃ r ∈ db.slots, r.slot = s) hkeep
      (fun w hw db _ hstored => ?_) hmem (fun db hdb => ?_) hbase
    · obtain ⟨s', -, rfl | rfl⟩ := mem_storeInitialHandleSlots hw
      · exact Table.exists_upsert_of_exists hstored fun _ h => h
      · exact hstored
    · obtain ⟨r, hr, heq⟩ := hc.exists_saveSlot hdb.rows (c.issuedBy_subset _ _ _ hs) 0
      exact ⟨r, hr, by rw [heq]⟩
  · rw [Chain.createdBy_zero] at hv
    obtain ⟨s, hs, rfl⟩ := List.mem_map.1 hv
    obtain ⟨hlauncher, -, -⟩ := hc.slots_eq s hs
    have hmem : (fun db : Db HandleSlotValue => db.saveXchandlesIndexedSlotValue s.launcherId
        s.value.handleHash s.valueHash) ∈ storeInitialHandleSlots c.slots :=
      List.mem_flatMap.2 ⟨s, hs, by simp⟩
    refine runWrites_reach (Q := fun db : Db HandleSlotValue => ∃ e ∈ db.xchandlesIndexed,
      e.1 = (launcherId, s.value.handleHash)) hkeep (fun w hw db _ hpresent => ?_) hmem
      (fun db _ => ?_) hbase
    · obtain ⟨s', -, rfl | rfl⟩ := mem_storeInitialHandleSlots hw
      · exact hpresent
      · exact Table.exists_upsert_of_exists hpresent fun _ h => h
    · rw [hlauncher]
      exact Table.exists_upsert (fun _ _ hkey => hkey) rfl
  · -- every handle has one slot at first, so the index has no other
    obtain ⟨v, hv, rfl⟩ := hafter.indexed e he
    refine ⟨v, rfl, ?_⟩
    rw [c.created_eq 0] at hv
    refine (List.mem_append.1 hv).imp (fun hv => lastWith_of_nodup ?_ hv) id
    obtain ⟨live, hlive⟩ := hc.journal
    rw [Chain.createdBy_zero]
    exact hlive.nodup_keys_first

/-- **The writes of the sync keep what the tables have.** -/
theorem handleKeeper (D : XchandlesDriver Sp) (launcherId : Bytes) :
    Keeper (syncXchandlesDetailed D launcherId) (HandleChain launcherId D.handleNonce)
      (HandlesBase launcherId D.handleNonce) (HandlesAt launcherId D.handleNonce) where
  linked hc := hc.linked
  given_eq _ := nofun
  base_empty _ := ⟨nofun, nofun, nofun⟩
  base_same hsame h := by
    refine ⟨?_, ?_, ?_⟩
    · rw [hsame.slots_eq]
      exact h.rows
    · rw [hsame.slots_eq]
      exact h.marked
    · rw [hsame.xchandlesIndexed_eq]
      exact h.indexed
  at_same hsame h := by
    refine ⟨?_, ?_, ?_⟩
    · rw [hsame.slots_eq]
      exact h.stored
    · rw [hsame.xchandlesIndexed_eq]
      exact h.present
    · rw [hsame.xchandlesIndexed_eq]
      exact h.indexed
  base_continues _ _ hg h :=
    ⟨fun r hr => hg.issued_subset _ _ (h.rows r hr),
      fun r hr hne => hg.spent_subset (h.marked r hr hne),
      fun e he => (h.indexed e he).imp fun _ hv => ⟨hg.created_subset hv.1, hv.2⟩⟩
  at_continues _ _ hg hn h := by
    refine ⟨?_, ?_, ?_⟩
    · rw [hg.issuedBy_eq _ _ hn]
      exact h.stored
    · rw [hg.createdBy_eq hn]
      exact h.present
    · rw [hg.createdBy_eq hn]
      exact fun e he => (h.indexed e he).imp fun _ hv =>
        ⟨hv.1, hv.2.imp id fun hafter => hg.createdAfter_subset hafter⟩
  initial_sameCoins slots w hw db := by
    obtain ⟨s, -, rfl | rfl⟩ := mem_storeInitialHandleSlots hw <;> exact ⟨rfl, rfl⟩
  store_sameCoins pending height w hw db := by
    rcases mem_storeHandleSlots hw with ⟨v, -, rfl | rfl⟩ | ⟨v, -, rfl⟩ <;> exact ⟨rfl, rfl⟩
  initial_base hc h :=
    runWrites_keep (fun w hw db h => storeInitialHandleSlots_keep hc hw h) h
  initial_at hc h := handlesAt_zero hc h
  store_before {c _ n _} hc hn _ hbase hat :=
    runWrites_keep (I := fun db => HandlesBase launcherId D.handleNonce c db ∧
      HandlesAt launcherId D.handleNonce c n db)
      (fun _ hw _ h => storeHandleSlots_keep hc hn hw h) ⟨hbase, hat⟩
  store_after hc hn _ hbase hat := hat.store hc hn hbase

/-- A write of a spend keeps the marks of the earlier spends. -/
theorem storeHandleSlots_keepMarked (hc : HandleChain launcherId D.handleNonce c)
    (hordered : Ordered c.values c.entries) (hn : n < c.spends.length) (hheight : 0 < height)
    {w : Write HandleSlotValue}
    (hw : w ∈ storeHandleSlots D launcherId c.spends[n].pending height)
    (hbase : HandlesBase launcherId D.handleNonce c db) (h : Marked c n db) : Marked c n (w db) := by
  rcases mem_storeHandleSlots hw with ⟨v, hv, rfl | rfl⟩ | ⟨v, hv, rfl⟩
  · exact h
  · refine hc.marked_saveSlot hbase.rows (SlotChain.slot_mem_issued hn hv) (fun hspent => ?_) h
    refine hc.not_mem_createdAfter hordered hspent ?_
    rw [Chain.createdAfter_eq hn]
    exact List.mem_append_left _ hv
  · have hspent : v ∈ spent c.entries := by
      rw [c.spent_eq n, Chain.spentAfter_eq hn]
      exact List.mem_append_right _ (List.mem_append_left _ hv)
    exact hc.marked_mark hbase.rows (hc.mem_created_of_spent hspent) hheight h

/-- **After the writes of a spend** its slots are marked too. -/
theorem marked_store (hc : HandleChain launcherId D.handleNonce c)
    (hordered : Ordered c.values c.entries) (hn : n < c.spends.length) (hheight : 0 < height)
    (hbase : HandlesBase launcherId D.handleNonce c db)
    (hat : HandlesAt launcherId D.handleNonce c n db) (h : Marked c n db) :
    Marked c (n + 1) (runWrites (storeHandleSlots D launcherId c.spends[n].pending height) db) := by
  have hkeep : ∀ w ∈ storeHandleSlots D launcherId c.spends[n].pending height, ∀ db,
      (HandlesBase launcherId D.handleNonce c db ∧ HandlesAt launcherId D.handleNonce c n db) ∧
        Marked c n db →
      (HandlesBase launcherId D.handleNonce c (w db) ∧
        HandlesAt launcherId D.handleNonce c n (w db)) ∧ Marked c n (w db) :=
    fun w hw db h => ⟨storeHandleSlots_keep hc hn hw h.1,
      storeHandleSlots_keepMarked hc hordered hn hheight hw h.1.1 h.2⟩
  intro r hr hspent
  rw [Chain.spentBy_succ hn] at hspent
  rcases List.mem_append.1 hspent with hspent | hspent
  · exact (runWrites_keep hkeep ⟨⟨hbase, hat⟩, h⟩ _ (List.prefix_refl _)).2 r hr hspent
  · -- the marks come after all slots have been saved
    unfold storeHandleSlots at hr hkeep
    rw [runWrites_append] at hr
    have hsaved := runWrites_keep hkeep ⟨⟨hbase, hat⟩, h⟩ _ (List.prefix_append _ _)
    have hcreated : ∀ v ∈ c.spends[n].pending.spent, v ∈ created c.values c.entries := by
      intro v hv
      refine hc.mem_created_of_spent ?_
      rw [c.spent_eq n, Chain.spentAfter_eq hn]
      exact List.mem_append_right _ (List.mem_append_left _ hv)
    refine runWrites_reach (I := HandlesBase launcherId D.handleNonce c)
      (Q := fun db => ∀ r' ∈ db.slots, r'.slot.value = r.slot.value → r'.spentBlockHeight ≠ 0)
      (fun w hw db hdb => ?_) (fun w hw db hdb hmarked => ?_) (List.mem_map_of_mem hspent)
      (fun db hdb => ?_) hsaved.1.1 r hr rfl
    · obtain ⟨v, hv, rfl⟩ := List.mem_map.1 hw
      refine hdb.mark hc ?_
      rw [c.spent_eq n, Chain.spentAfter_eq hn]
      exact List.mem_append_right _ (List.mem_append_left _ hv)
    · obtain ⟨v, hv, rfl⟩ := List.mem_map.1 hw
      exact hc.forall_markSlotAsSpent hdb.rows (hcreated v hv) (fun r hr _ => hmarked r hr)
        fun _ _ _ _ => hheight.ne'
    · exact hc.marked_markSlotAsSpent hdb.rows (hcreated _ hspent) hheight

/-- **The writes of the sync keep what the tables have, and the marks**, if nothing is
spent before it is created. -/
theorem markedKeeper (D : XchandlesDriver Sp) (launcherId : Bytes) :
    Keeper (syncXchandlesDetailed D launcherId)
      (fun c => HandleChain launcherId D.handleNonce c ∧ Ordered c.values c.entries)
      (HandlesBase launcherId D.handleNonce)
      (fun c n db => HandlesAt launcherId D.handleNonce c n db ∧ Marked c n db) where
  linked hc := hc.1.linked
  given_eq _ := nofun
  base_empty hc := (handleKeeper D launcherId).base_empty hc.1
  base_same := (handleKeeper D launcherId).base_same
  at_same hsame h := by
    refine ⟨(handleKeeper D launcherId).at_same hsame h.1, ?_⟩
    unfold Marked
    rw [hsame.slots_eq]
    exact h.2
  base_continues hc hc' := (handleKeeper D launcherId).base_continues hc.1 hc'.1
  at_continues hc hc' hg hn h := by
    refine ⟨(handleKeeper D launcherId).at_continues hc.1 hc'.1 hg hn h.1, ?_⟩
    unfold Marked
    rw [hg.spentBy_eq hn]
    exact h.2
  initial_sameCoins := (handleKeeper D launcherId).initial_sameCoins
  store_sameCoins := (handleKeeper D launcherId).store_sameCoins
  initial_base hc := (handleKeeper D launcherId).initial_base hc.1
  initial_at hc h := ⟨handlesAt_zero hc.1 h, fun r _ hspent => absurd hspent List.not_mem_nil⟩
  store_before {c _ n _} hc hn hheight hbase hat ws hws := by
    have hkeep := runWrites_keep (I := fun db => (HandlesBase launcherId D.handleNonce c db ∧
      HandlesAt launcherId D.handleNonce c n db) ∧ Marked c n db)
      (fun w hw db h => ⟨storeHandleSlots_keep hc.1 hn hw h.1,
        storeHandleSlots_keepMarked hc.1 hc.2 hn hheight hw h.1.1 h.2⟩)
      ⟨⟨hbase, hat.1⟩, hat.2⟩ ws hws
    exact ⟨hkeep.1.1, hkeep.1.2, hkeep.2⟩
  store_after hc hn hheight hbase hat :=
    ⟨hat.1.store hc.1 hn hbase, marked_store hc.1 hc.2 hn hheight hbase hat.1 hat.2⟩

end

end SlotMachine.Sync
