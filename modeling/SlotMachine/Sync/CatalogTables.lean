import SlotMachine.Sync.Catalog

/-!
# The tables of a CATalog sync

What the tables have while a CATalog registry is synced, if no spend spends a slot that
a later one creates.

* `CatalogBase`, `CatalogAt` — what the tables have at all times, and after some spends.
* `isFresh_of_saves` — a slot is fresh once it is saved and indexed.
* `CatalogAt.markIndexed`, `CatalogAt.saves` — what single writes keep.
* `catalogAt_before`, `catalogAt_after` — **what all writes of a spend do**.
* `catalogKeeper` — the writes keep what the tables have.
-/

namespace SlotMachine.Sync

open Journal
open Catalog (CatalogSlotValue)

/-! ## What the tables have -/

/-- A chain whose slots are a journal. -/
abbrev CatalogChain (launcherId : Bytes) (c : Chain CatalogSlotValue Empty) : Prop :=
  SlotChain CatalogSlotValue.assetId (fun v => (v.counter : ℤ)) catalogTreeHash launcherId 0 c

/-- The entry of a slot in the index. -/
def catalogEntry (v : CatalogSlotValue) : Bytes × Bytes := (v.assetId, catalogTreeHash v)

/-- The value is one of the first, or survives the spend that creates it. -/
def Survives (c : Chain CatalogSlotValue Empty) (v : CatalogSlotValue) : Prop :=
  v ∈ c.values ∨ ∃ e ∈ c.entries, v ∈ e.created ∧ v ∉ e.spent

/-- **What the tables have at all times**: slots of the chain that survived the spend that
created them. -/
structure CatalogBase (c : Chain CatalogSlotValue Empty) (db : Db CatalogSlotValue) : Prop where
  rows : ∀ r ∈ db.slots, r.slot ∈ c.issued catalogTreeHash 0
  survive : ∀ r ∈ db.slots, Survives c r.slot.value
  indexed : ∀ e ∈ db.catalogIndexed, ∃ v ∈ created c.values c.entries, e = catalogEntry v

/-- The rows of the value are not marked, and the index has it. -/
structure IsFresh (db : Db CatalogSlotValue) (v : CatalogSlotValue) : Prop where
  rows : ∀ r ∈ db.slots, r.slot.value = v → r.spentBlockHeight = 0
  present : ∃ e ∈ db.catalogIndexed, e.1 = v.assetId
  indexed : ∀ e ∈ db.catalogIndexed, e.1 = v.assetId → e = catalogEntry v

/-- The rows of the value are marked. -/
def RowsMarked (db : Db CatalogSlotValue) (v : CatalogSlotValue) : Prop :=
  ∀ r ∈ db.slots, r.slot.value = v → r.spentBlockHeight ≠ 0

/-- **What the tables have after `n` spends**: the live slots, and marks on the spent ones.
On the way to the next spend, a slot that it spends may have been marked. -/
structure CatalogAt (c : Chain CatalogSlotValue Empty) (n : ℕ) (db : Db CatalogSlotValue) :
    Prop where
  marked : Marked c n db
  present : ∀ v, c.LiveAt n v → ∃ r ∈ db.slots, r.slot.value = v
  fresh : ∀ v, c.LiveAt n v → IsFresh db v ∨ v ∈ c.spentBy (n + 1) ∧ RowsMarked db v
  indexed : ∀ e ∈ db.catalogIndexed, ∃ v, e = catalogEntry v ∧
    (c.LiveAt n v ∨ v ∈ c.createdAfter n)

section

variable {launcherId : Bytes} {n height : ℕ} {c c' : Chain CatalogSlotValue Empty}
variable {db db' : Db CatalogSlotValue} {s : Slot CatalogSlotValue} {v w : CatalogSlotValue}

/-! ## Slots that are saved -/

/-- The writes that save a slot. -/
def Saves (s : Slot CatalogSlotValue) (write : Write CatalogSlotValue) : Prop :=
  (write = fun db => db.saveSlot s 0) ∨
    write = fun db => db.saveCatalogIndexedSlotValue s.value.assetId (catalogTreeHash s.value)

theorem CatalogBase.saves (hc : CatalogChain launcherId c) (hs : s ∈ c.issued catalogTreeHash 0)
    (hsurvives : Survives c s.value) {write : Write CatalogSlotValue} (hwrite : Saves s write)
    (h : CatalogBase c db) : CatalogBase c (write db) := by
  rcases hwrite with rfl | rfl
  · exact ⟨hc.forall_saveSlot h.rows hs (fun r hr _ => h.rows r hr) hs,
      hc.forall_saveSlot h.rows hs (fun r hr _ => h.survive r hr) hsurvives, h.indexed⟩
  · obtain ⟨-, -, -, hcreated⟩ := hc.of_mem_issued hs
    exact ⟨h.rows, h.survive, Table.forall_upsert (fun e he _ => h.indexed e he)
      (fun _ _ hkey => ⟨s.value, hcreated, Prod.ext hkey rfl⟩) ⟨s.value, hcreated, rfl⟩⟩

/-- A slot with another key is saved. -/
theorem IsFresh.saves_of_ne (hc : CatalogChain launcherId c) (hbase : CatalogBase c db)
    (hs : s ∈ c.issued catalogTreeHash 0) (hne : s.value.assetId ≠ v.assetId)
    {write : Write CatalogSlotValue} (hwrite : Saves s write) (h : IsFresh db v) :
    IsFresh (write db) v := by
  rcases hwrite with rfl | rfl
  · exact ⟨hc.forall_saveSlot hbase.rows hs (fun r hr _ => h.rows r hr) fun _ => rfl, h.present,
      h.indexed⟩
  · exact ⟨h.rows, Table.exists_upsert_of_exists h.present fun _ h => h,
      Table.forall_upsert (fun e he _ => h.indexed e he)
        (fun _ _ hkey heq => absurd (hkey.symm.trans heq) hne) fun heq => absurd heq hne⟩

/-- **A slot is fresh once it is saved and indexed.** -/
theorem isFresh_of_saves (hc : CatalogChain launcherId c) {slots : List (Slot CatalogSlotValue)}
    (hslots : ∀ s ∈ slots, s ∈ c.issued catalogTreeHash 0 ∧ Survives c s.value)
    (hkeys : ∀ s ∈ slots, ∀ t ∈ slots, s.value.assetId = t.value.assetId → s = t)
    {ws : List (Write CatalogSlotValue)} (hws : ∀ w ∈ ws, ∃ s ∈ slots, Saves s w) (hs : s ∈ slots)
    (hsave : (fun db => db.saveSlot s 0) ∈ ws)
    (hindex : (fun db => db.saveCatalogIndexedSlotValue s.value.assetId (catalogTreeHash s.value))
      ∈ ws) (hbase : CatalogBase c db) :
    IsFresh (runWrites ws db) s.value ∧ ∃ r ∈ (runWrites ws db).slots, r.slot = s := by
  have hissued := (hslots s hs).1
  have hkeep : ∀ w ∈ ws, ∀ db, CatalogBase c db → CatalogBase c (w db) := by
    intro w hw db hdb
    obtain ⟨t, ht, hsaves⟩ := hws w hw
    exact hdb.saves hc (hslots t ht).1 (hslots t ht).2 hsaves
  -- every write is one of this slot, or of one with another key
  have hcases : ∀ w ∈ ws, Saves s w ∨ ∃ t ∈ slots, t.value.assetId ≠ s.value.assetId ∧ Saves t w := by
    intro w hw
    obtain ⟨t, ht, hsaves⟩ := hws w hw
    by_cases hkey : t.value.assetId = s.value.assetId
    · rw [hkeys t ht s hs hkey] at hsaves
      exact Or.inl hsaves
    · exact Or.inr ⟨t, ht, hkey, hsaves⟩
  refine ⟨⟨?_, ?_, ?_⟩, ?_⟩
  · refine runWrites_reach (Q := fun db => ∀ r ∈ db.slots, r.slot.value = s.value →
      r.spentBlockHeight = 0) hkeep (fun w hw db hdb hQ => ?_) hsave (fun db hdb => ?_) hbase
    · rcases hcases w hw with (rfl | rfl) | ⟨t, ht, -, rfl | rfl⟩
      · exact hc.forall_saveSlot hdb.rows hissued (fun r hr _ => hQ r hr) fun _ => rfl
      · exact hQ
      · exact hc.forall_saveSlot hdb.rows (hslots t ht).1 (fun r hr _ => hQ r hr) fun _ => rfl
      · exact hQ
    · refine hc.forall_saveSlot hdb.rows hissued (fun r hr hne hvalue => absurd ?_ hne) fun _ => rfl
      refine hc.eq_of_valueHash (hdb.rows r hr) hissued ?_
      rw [(hc.of_mem_issued (hdb.rows r hr)).2.2.1, (hc.of_mem_issued hissued).2.2.1, hvalue]
  · refine runWrites_reach (Q := fun db => ∃ e ∈ db.catalogIndexed, e.1 = s.value.assetId) hkeep
      (fun w hw db _ hQ => ?_) hindex (fun db _ => Table.exists_upsert (fun _ _ h => h) rfl) hbase
    obtain ⟨t, -, rfl | rfl⟩ := hws w hw
    · exact hQ
    · exact Table.exists_upsert_of_exists hQ fun _ h => h
  · refine runWrites_reach (Q := fun db => ∀ e ∈ db.catalogIndexed, e.1 = s.value.assetId →
      e = catalogEntry s.value) hkeep (fun w hw db _ hQ => ?_) hindex (fun db _ => ?_) hbase
    · rcases hcases w hw with (rfl | rfl) | ⟨t, -, hne, rfl | rfl⟩
      · exact hQ
      · exact Table.forall_upsert (fun e he _ => hQ e he) (fun _ _ hkey _ => Prod.ext hkey rfl)
          fun _ => rfl
      · exact hQ
      · exact Table.forall_upsert (fun e he _ => hQ e he)
          (fun _ _ hkey heq => absurd (hkey.symm.trans heq) hne) fun heq => absurd heq hne
    · exact Table.forall_upsert (fun _ _ hne heq => absurd heq hne)
        (fun _ _ hkey _ => Prod.ext hkey rfl) fun _ => rfl
  · refine runWrites_reach (Q := fun db => ∃ r ∈ db.slots, r.slot = s) hkeep
      (fun w hw db _ hQ => ?_) hsave (fun db hdb => ?_) hbase
    · obtain ⟨t, -, rfl | rfl⟩ := hws w hw
      · exact Table.exists_upsert_of_exists hQ fun _ h => h
      · exact hQ
    · obtain ⟨r, hr, heq⟩ := hc.exists_saveSlot hdb.rows hissued 0
      exact ⟨r, hr, by rw [heq]⟩

/-! ## Slots that are marked -/

theorem IsFresh.getCatalogIndexedSlotValue (h : IsFresh db v) :
    db.getCatalogIndexedSlotValue v.assetId = some (catalogTreeHash v) := by
  unfold Db.getCatalogIndexedSlotValue
  cases hfind : db.catalogIndexed.find? fun r => r.1 = v.assetId with
  | none =>
      obtain ⟨e, he, hkey⟩ := h.present
      exact absurd (decide_eq_true hkey) (List.find?_eq_none.1 hfind e he)
  | some e =>
      have hkey := List.find?_some hfind
      rw [h.indexed e (List.mem_of_find?_eq_some hfind) (of_decide_eq_true hkey)]
      rfl

theorem mem_of_getCatalogIndexedSlotValue {assetId d : Bytes}
    (h : db.getCatalogIndexedSlotValue assetId = some d) : (assetId, d) ∈ db.catalogIndexed := by
  obtain ⟨e, hfind, rfl⟩ := Option.map_eq_some_iff.1 h
  have hkey := List.find?_some hfind
  rw [decide_eq_true_eq] at hkey
  rw [← hkey]
  exact List.mem_of_find?_eq_some hfind

theorem CatalogBase.mark (hc : CatalogChain launcherId c) (hv : v ∈ created c.values c.entries)
    (h : CatalogBase c db) :
    CatalogBase c (db.markSlotAsSpent launcherId 0 (catalogTreeHash v) height) where
  rows := hc.forall_markSlotAsSpent h.rows hv (fun r hr _ => h.rows r hr) fun r hr _ => h.rows r hr
  survive := hc.forall_markSlotAsSpent h.rows hv (fun r hr _ => h.survive r hr)
    fun r hr _ => h.survive r hr
  indexed := h.indexed

/-- A mark stays. -/
theorem RowsMarked.mark (hc : CatalogChain launcherId c) (hbase : CatalogBase c db)
    (hw : w ∈ created c.values c.entries) (hheight : 0 < height) (h : RowsMarked db v) :
    RowsMarked (db.markSlotAsSpent launcherId 0 (catalogTreeHash w) height) v :=
  hc.forall_markSlotAsSpent hbase.rows hw (fun r hr _ => h r hr) fun _ _ _ _ => hheight.ne'

theorem RowsMarked.markIndexed (hc : CatalogChain launcherId c) (hbase : CatalogBase c db)
    (hheight : 0 < height) (h : RowsMarked db v) (assetId : Bytes) :
    RowsMarked (markIndexed launcherId height assetId db) v := by
  unfold Sync.markIndexed
  cases hget : db.getCatalogIndexedSlotValue assetId with
  | none => exact h
  | some d =>
      obtain ⟨u, hu, hentry⟩ := hbase.indexed _ (mem_of_getCatalogIndexedSlotValue hget)
      obtain ⟨-, rfl⟩ := Prod.mk.inj hentry
      exact h.mark hc hbase hu hheight

/-- What the index has for an asset that a spend spends is marked: **the live slot, or one
that a later spend creates**. -/
theorem CatalogAt.markIndexed (hc : CatalogChain launcherId c)
    (hordered : Ordered c.values c.entries) (hn : n < c.spends.length) (hheight : 0 < height)
    (hbase : CatalogBase c db) (h : CatalogAt c n db) (hw : w ∈ c.spends[n].pending.spent) :
    CatalogBase c (markIndexed launcherId height w.assetId db) ∧
      CatalogAt c n (markIndexed launcherId height w.assetId db) := by
  unfold Sync.markIndexed
  cases hget : db.getCatalogIndexedSlotValue w.assetId with
  | none => exact ⟨hbase, h⟩
  | some d =>
      obtain ⟨u, hentry, hu⟩ := h.indexed _ (mem_of_getCatalogIndexedSlotValue hget)
      obtain ⟨hkey, rfl⟩ := Prod.mk.inj hentry
      have hcreated : u ∈ created c.values c.entries := by
        rcases hu with hu | hu
        · exact hu.mem_created
        · rw [c.created_eq n]
          exact List.mem_append_right _ hu
      refine ⟨hbase.mark hc hcreated, hc.marked_mark hbase.rows hcreated hheight h.marked,
        fun v hv => Table.exists_update (h.present v hv) fun _ h => h, fun v hv => ?_, h.indexed⟩
      rcases h.fresh v hv with hfresh | ⟨hspent, hmarked⟩
      · by_cases hsame : u = v
        · subst hsame
          refine Or.inr ⟨?_, hc.marked_markSlotAsSpent hbase.rows hcreated hheight⟩
          rw [Chain.spentBy_succ hn]
          exact List.mem_append_right _ (hc.spent_of_spent hordered hn hv hw hkey)
        · refine Or.inl ⟨?_, hfresh.present, hfresh.indexed⟩
          exact hc.forall_markSlotAsSpent hbase.rows hcreated (fun r hr _ => hfresh.rows r hr)
            fun r _ hvalue heq => absurd (hvalue.symm.trans heq) hsame
      · exact Or.inr ⟨hspent, hmarked.mark hc hbase hcreated hheight⟩

/-- **All live slots that a spend spends are marked.** -/
theorem CatalogAt.rowsMarked (hc : CatalogChain launcherId c)
    (hordered : Ordered c.values c.entries) (hn : n < c.spends.length) (hheight : 0 < height)
    (hbase : CatalogBase c db) (h : CatalogAt c n db) (hlive : c.LiveAt n v)
    (hv : v ∈ c.spends[n].pending.spent) :
    RowsMarked (runWrites (c.spends[n].pending.spent.map fun v =>
      Sync.markIndexed launcherId height v.assetId) db) v := by
  refine runWrites_reach (I := fun db => CatalogBase c db ∧ CatalogAt c n db)
    (Q := fun db => RowsMarked db v) (fun w hw db hdb => ?_) (fun w hw db hdb hQ => ?_)
    (List.mem_map_of_mem hv) (fun db hdb => ?_) ⟨hbase, h⟩
  · obtain ⟨u, hu, rfl⟩ := List.mem_map.1 hw
    exact hdb.2.markIndexed hc hordered hn hheight hdb.1 hu
  · obtain ⟨u, -, rfl⟩ := List.mem_map.1 hw
    exact hQ.markIndexed hc hdb.1 hheight u.assetId
  · rcases hdb.2.fresh v hlive with hfresh | ⟨-, hmarked⟩
    · unfold Sync.markIndexed
      rw [hfresh.getCatalogIndexedSlotValue]
      exact hc.marked_markSlotAsSpent hdb.1.rows hlive.mem_created hheight
    · exact hmarked.markIndexed hc hdb.1 hheight v.assetId

/-! ## The slots of a spend -/

/-- **The slots that are saved are those created and not spent.** -/
theorem mem_survivors (hc : CatalogChain launcherId c) (hn : n < c.spends.length) :
    v ∈ survivors c.spends[n].pending ↔
      v ∈ c.spends[n].pending.created ∧ v ∉ c.spends[n].pending.spent := by
  have hall : ∀ v ∈ c.spends[n].pending.created, v ∈ created c.values c.entries :=
    fun v hv => mem_created_of_mem (SlotChain.entry_mem hn) hv
  have hnodup : c.spends[n].pending.created.Nodup := by
    have hcreated := hc.nodup_created
    rw [c.created_eq n, Chain.createdAfter_eq hn] at hcreated
    exact (List.nodup_append'.1 (List.nodup_append'.1 hcreated).2.1).1
  unfold survivors
  rw [mem_survivorsFrom fun v hv w hw => hc.hash_inj v (hall v hv) w (hall w hw)]
  constructor
  · rintro ⟨hv, -, hcount⟩
    rw [List.count_eq_one_of_mem hnodup hv, Nat.lt_one_iff, List.count_eq_zero] at hcount
    exact ⟨hv, hcount⟩
  · rintro ⟨hv, hspent⟩
    refine ⟨hv, List.not_mem_nil, ?_⟩
    rw [List.count_eq_one_of_mem hnodup hv, List.count_eq_zero.2 hspent]
    exact Nat.one_pos

theorem survives_of_mem (hn : n < c.spends.length) (hv : v ∈ c.spends[n].pending.created)
    (hspent : v ∉ c.spends[n].pending.spent) : Survives c v :=
  Or.inr ⟨_, SlotChain.entry_mem hn, hv, hspent⟩

/-- A value that the same spend creates and spends does not survive. -/
theorem not_survives (hc : CatalogChain launcherId c) (hn : n < c.spends.length)
    (hv : v ∈ c.spends[n].pending.created) (hspent : v ∈ c.spends[n].pending.spent) :
    ¬ Survives c v := by
  have hnodup := hc.nodup_created
  unfold created at hnodup
  obtain ⟨-, hentries, hdisjoint⟩ := List.nodup_append'.1 hnodup
  rintro (hfirst | ⟨e, he, hcreated, hleft⟩)
  · exact hdisjoint hfirst (List.mem_flatMap.2 ⟨_, SlotChain.entry_mem hn, hv⟩)
  · -- no other spend creates it
    have hpairwise := (List.nodup_flatMap.1 hentries).2
    by_cases hsame : e = c.spends[n].pending.entry
    · rw [hsame] at hleft
      exact hleft hspent
    · have hsymm : Std.Symm (Function.onFun List.Disjoint (Entry.created (V := CatalogSlotValue))) :=
        ⟨fun _ _ h => h.symm⟩
      exact hpairwise.forall he (SlotChain.entry_mem hn) hsame hcreated hv

/-- A slot that a spend leaves is saved or indexed, after the marks. -/
theorem CatalogAt.saves (hc : CatalogChain launcherId c) (hordered : Ordered c.values c.entries)
    (hn : n < c.spends.length) (hbase : CatalogBase c db) (h : CatalogAt c n db)
    (hmarked : ∀ v, c.LiveAt n v → v ∈ c.spends[n].pending.spent → RowsMarked db v)
    (hw : w ∈ c.spends[n].pending.created) {write : Write CatalogSlotValue}
    (hwrite : Saves (c.spends[n].pending.registry.slot catalogTreeHash 0 w) write) :
    CatalogAt c n (write db) ∧
      ∀ v, c.LiveAt n v → v ∈ c.spends[n].pending.spent → RowsMarked (write db) v := by
  have hissued : c.spends[n].pending.registry.slot catalogTreeHash 0 w
      ∈ c.issued catalogTreeHash 0 := SlotChain.slot_mem_issued hn hw
  have hmarked' : ∀ v, c.LiveAt n v → v ∈ c.spends[n].pending.spent → RowsMarked (write db) v := by
    intro v hv hspent
    rcases hwrite with rfl | rfl
    · exact hc.forall_saveSlot hbase.rows hissued (fun r hr _ => hmarked v hv hspent r hr)
        fun heq => absurd heq.symm (hc.liveAt_ne hn hv hw)
    · exact hmarked v hv hspent
  have hspentBy : ∀ v, v ∈ c.spends[n].pending.spent → v ∈ c.spentBy (n + 1) := by
    intro v hv
    rw [Chain.spentBy_succ hn]
    exact List.mem_append_right _ hv
  refine ⟨⟨?_, fun v hv => ?_, fun v hv => ?_, ?_⟩, hmarked'⟩
  · rcases hwrite with rfl | rfl
    · refine hc.marked_saveSlot hbase.rows hissued (fun hspent => ?_) h.marked
      exact hc.not_mem_createdAfter hordered hspent (SlotChain.mem_createdAfter hn hw)
    · exact h.marked
  · rcases hwrite with rfl | rfl
    · exact Table.exists_upsert_of_exists (h.present v hv) fun _ h => h
    · exact h.present v hv
  · rcases h.fresh v hv with hfresh | ⟨hspent, -⟩
    · by_cases hkey : w.assetId = v.assetId
      · have hspent := hc.spent_of_created hordered hn hv hw hkey
        exact Or.inr ⟨hspentBy v hspent, hmarked' v hv hspent⟩
      · exact Or.inl (hfresh.saves_of_ne hc hbase hissued hkey hwrite)
    · rw [Chain.spentBy_succ hn, List.mem_append, or_iff_right hv.2] at hspent
      exact Or.inr ⟨hspentBy v hspent, hmarked' v hv hspent⟩
  · rcases hwrite with rfl | rfl
    · exact h.indexed
    · exact Table.forall_upsert (fun e he _ => h.indexed e he)
        (fun _ _ hkey => ⟨w, Prod.ext hkey rfl, Or.inr (SlotChain.mem_createdAfter hn hw)⟩)
        ⟨w, rfl, Or.inr (SlotChain.mem_createdAfter hn hw)⟩

/-! ## All writes of a spend -/

/-- The slots that a spend leaves. -/
def savedSlots (pending : PendingSpend CatalogSlotValue Empty) : List (Slot CatalogSlotValue) :=
  (survivors pending).map (pending.registry.slot catalogTreeHash 0)

/-- The writes after the marks. -/
def saveWrites (pending : PendingSpend CatalogSlotValue Empty) : List (Write CatalogSlotValue) :=
  (survivors pending).flatMap fun v =>
    [fun db => db.saveCatalogIndexedSlotValue v.assetId (catalogTreeHash v),
      fun db => db.saveSlot (pending.registry.slot catalogTreeHash 0 v) 0]

theorem saves_of_mem {pending : PendingSpend CatalogSlotValue Empty}
    {write : Write CatalogSlotValue} (h : write ∈ saveWrites pending) :
    ∃ v ∈ survivors pending, Saves (pending.registry.slot catalogTreeHash 0 v) write := by
  obtain ⟨v, hv, hwrite⟩ := List.mem_flatMap.1 h
  refine ⟨v, hv, ?_⟩
  rcases List.mem_cons.1 hwrite with rfl | hwrite
  · exact Or.inr rfl
  · exact Or.inl (List.mem_singleton.1 hwrite)

/-- What the tables have between the marks of a spend and its end. -/
structure CatalogMarked (c : Chain CatalogSlotValue Empty) (n : ℕ) (hn : n < c.spends.length)
    (db : Db CatalogSlotValue) : Prop where
  base : CatalogBase c db
  tables : CatalogAt c n db
  rowsMarked : ∀ v, c.LiveAt n v → v ∈ c.spends[n].pending.spent → RowsMarked db v

theorem CatalogMarked.saveWrites (hc : CatalogChain launcherId c)
    (hordered : Ordered c.values c.entries) (hn : n < c.spends.length) :
    ∀ w ∈ saveWrites c.spends[n].pending, ∀ db, CatalogMarked c n hn db →
      CatalogMarked c n hn (w db) := by
  intro w hw db h
  obtain ⟨v, hv, hsaves⟩ := saves_of_mem hw
  obtain ⟨hcreated, hleft⟩ := (mem_survivors hc hn).1 hv
  obtain ⟨hat, hmarked⟩ := h.tables.saves hc hordered hn h.base h.rowsMarked hcreated hsaves
  exact ⟨h.base.saves hc (SlotChain.slot_mem_issued hn hcreated)
    (survives_of_mem hn hcreated hleft) hsaves, hat, hmarked⟩

/-- The marks of a spend. -/
theorem catalogMarked (hc : CatalogChain launcherId c) (hordered : Ordered c.values c.entries)
    (hn : n < c.spends.length) (hheight : 0 < height) (hbase : CatalogBase c db)
    (h : CatalogAt c n db) :
    CatalogMarked c n hn (runWrites (c.spends[n].pending.spent.map fun v =>
      markIndexed launcherId height v.assetId) db) := by
  have hmark : ∀ w ∈ c.spends[n].pending.spent.map fun v => markIndexed launcherId height v.assetId,
      ∀ db, CatalogBase c db ∧ CatalogAt c n db → CatalogBase c (w db) ∧ CatalogAt c n (w db) := by
    intro w hw db hdb
    obtain ⟨u, hu, rfl⟩ := List.mem_map.1 hw
    exact hdb.2.markIndexed hc hordered hn hheight hdb.1 hu
  have hkeep := runWrites_keep hmark ⟨hbase, h⟩ _ (List.prefix_refl _)
  exact ⟨hkeep.1, hkeep.2, fun v hv hspent => h.rowsMarked hc hordered hn hheight hbase hv hspent⟩

theorem storeCatalogSlots_eq (constants : RegistryConstants)
    (pending : PendingSpend CatalogSlotValue Empty) : storeCatalogSlots constants pending height
      = (pending.spent.map fun v => markIndexed constants.launcherId height v.assetId)
        ++ saveWrites pending := rfl

/-- **While a spend is stored**, the tables have what is there before it. -/
theorem catalogAt_before {constants : RegistryConstants}
    (hc : CatalogChain constants.launcherId c) (hordered : Ordered c.values c.entries)
    (hn : n < c.spends.length) (hheight : 0 < height) (hbase : CatalogBase c db)
    (h : CatalogAt c n db) (ws : List (Write CatalogSlotValue))
    (hws : ws <+: storeCatalogSlots constants c.spends[n].pending height) :
    CatalogBase c (runWrites ws db) ∧ CatalogAt c n (runWrites ws db) := by
  rcases isPrefix_append_cases (storeCatalogSlots_eq constants c.spends[n].pending ▸ hws) with
    hws | ⟨ws', hws', rfl⟩
  · refine runWrites_keep (I := fun db => CatalogBase c db ∧ CatalogAt c n db) ?_ ⟨hbase, h⟩ _ hws
    intro w hw db hdb
    obtain ⟨u, hu, rfl⟩ := List.mem_map.1 hw
    exact hdb.2.markIndexed hc hordered hn hheight hdb.1 hu
  · rw [runWrites_append]
    have hafter := runWrites_keep (CatalogMarked.saveWrites hc hordered hn)
      (catalogMarked hc hordered hn hheight hbase h) ws' hws'
    exact ⟨hafter.base, hafter.tables⟩

/-- **After a spend is stored**, the tables have what is there after it. -/
theorem catalogAt_after {constants : RegistryConstants}
    (hc : CatalogChain constants.launcherId c) (hordered : Ordered c.values c.entries)
    (hn : n < c.spends.length) (hheight : 0 < height) (hbase : CatalogBase c db)
    (h : CatalogAt c n db) : CatalogAt c (n + 1)
      (runWrites (storeCatalogSlots constants c.spends[n].pending height) db) := by
  rw [storeCatalogSlots_eq, runWrites_append]
  have hmarks := catalogMarked hc hordered hn hheight hbase h
  have hafter := runWrites_keep (CatalogMarked.saveWrites hc hordered hn) hmarks _
    (List.prefix_refl _)
  -- the slots that are left are saved and indexed
  have hslots : ∀ s ∈ savedSlots c.spends[n].pending, s ∈ c.issued catalogTreeHash 0 ∧
      Survives c s.value := by
    intro s hs
    obtain ⟨v, hv, rfl⟩ := List.mem_map.1 hs
    obtain ⟨hcreated, hleft⟩ := (mem_survivors hc hn).1 hv
    exact ⟨SlotChain.slot_mem_issued hn hcreated, survives_of_mem hn hcreated hleft⟩
  have hlive : ∀ v ∈ survivors c.spends[n].pending, c.LiveAt (n + 1) v := fun v hv =>
    (hc.liveAt_succ hordered hn).2 (((mem_survivors hc hn).1 hv).imp Or.inr id)
  have hkeys : ∀ s ∈ savedSlots c.spends[n].pending, ∀ t ∈ savedSlots c.spends[n].pending,
      s.value.assetId = t.value.assetId → s = t := by
    intro s hs t ht hkey
    obtain ⟨v, hv, rfl⟩ := List.mem_map.1 hs
    obtain ⟨w, hw, rfl⟩ := List.mem_map.1 ht
    exact congrArg _ (hc.eq_of_key hordered (hlive v hv) (hlive w hw) hkey)
  have hfresh : ∀ v ∈ survivors c.spends[n].pending,
      IsFresh (runWrites (saveWrites c.spends[n].pending) (runWrites
        (c.spends[n].pending.spent.map fun v => markIndexed constants.launcherId height v.assetId)
        db)) v ∧ ∃ r ∈ (runWrites (saveWrites c.spends[n].pending) (runWrites
          (c.spends[n].pending.spent.map fun v =>
            markIndexed constants.launcherId height v.assetId) db)).slots,
        r.slot = c.spends[n].pending.registry.slot catalogTreeHash 0 v := by
    intro v hv
    refine isFresh_of_saves hc hslots hkeys (fun w hw => ?_) (List.mem_map_of_mem hv) ?_ ?_
      hmarks.base
    · obtain ⟨u, hu, hsaves⟩ := saves_of_mem hw
      exact ⟨_, List.mem_map_of_mem hu, hsaves⟩
    · exact List.mem_flatMap.2 ⟨v, hv, List.mem_cons_of_mem _ (List.mem_singleton_self _)⟩
    · exact List.mem_flatMap.2 ⟨v, hv, List.mem_cons_self⟩
  refine ⟨?_, fun v hv => ?_, fun v hv => ?_, fun e he => ?_⟩
  · intro r hr hspent
    rw [Chain.spentBy_succ hn] at hspent
    rcases List.mem_append.1 hspent with hspent | hspent
    · exact hafter.tables.marked r hr hspent
    · have hcreated : r.slot.value ∈ c.createdBy (n + 1) := by
        refine hordered (n + 1) ?_
        show _ ∈ c.spentBy (n + 1)
        rw [Chain.spentBy_succ hn]
        exact List.mem_append_right _ hspent
      rw [Chain.createdBy_succ hn] at hcreated
      rcases List.mem_append.1 hcreated with hcreated | hcreated
      · by_cases hbefore : r.slot.value ∈ c.spentBy n
        · exact hafter.tables.marked r hr hbefore
        · exact hafter.rowsMarked _ ⟨hcreated, hbefore⟩ hspent r hr rfl
      · exact absurd (hafter.base.survive r hr) (not_survives hc hn hcreated hspent)
  · obtain ⟨hv | hv, hleft⟩ := (hc.liveAt_succ hordered hn).1 hv
    · exact hafter.tables.present v hv
    · obtain ⟨r, hr, hslot⟩ := (hfresh v ((mem_survivors hc hn).2 ⟨hv, hleft⟩)).2
      exact ⟨r, hr, congrArg Slot.value hslot⟩
  · obtain ⟨hv | hv, hleft⟩ := (hc.liveAt_succ hordered hn).1 hv
    · rcases hafter.tables.fresh v hv with hfresh' | ⟨hspent, -⟩
      · exact Or.inl hfresh'
      · rw [Chain.spentBy_succ hn, List.mem_append, or_iff_right hv.2] at hspent
        exact absurd hspent hleft
    · exact Or.inl (hfresh v ((mem_survivors hc hn).2 ⟨hv, hleft⟩)).1
  · obtain ⟨v, rfl, hv⟩ := hafter.tables.indexed e he
    -- what the spend created for this asset is in the index
    have hcreated : ∀ w ∈ c.spends[n].pending.created, w.assetId = v.assetId →
        ∃ w, catalogEntry v = catalogEntry w ∧
          (c.LiveAt (n + 1) w ∨ w ∈ c.createdAfter (n + 1)) := by
      intro w hw hkey
      obtain ⟨u, hu, hleft, hkey'⟩ := hc.exists_survivor hn hw
      have hmem := (mem_survivors hc hn).2 ⟨hu, hleft⟩
      exact ⟨u, (hfresh u hmem).1.indexed _ he (hkey'.trans hkey).symm, Or.inl (hlive u hmem)⟩
    rcases hv with hv | hv
    · by_cases hspent : v ∈ c.spends[n].pending.spent
      · obtain ⟨w, hw, hkey, -⟩ := hc.exists_created_of_spent hn hspent
        exact hcreated w hw hkey
      · exact ⟨v, rfl, Or.inl ((hc.liveAt_succ hordered hn).2 ⟨Or.inl hv, hspent⟩)⟩
    · rw [Chain.createdAfter_eq hn] at hv
      rcases List.mem_append.1 hv with hv | hv
      · exact hcreated v hv rfl
      · exact ⟨v, rfl, Or.inr hv⟩

/-! ## What runs keep -/

theorem saves_of_mem_initial (hc : CatalogChain launcherId c) {write : Write CatalogSlotValue}
    (h : write ∈ storeInitialCatalogSlots c.slots) : ∃ s ∈ c.slots, Saves s write := by
  obtain ⟨s, hs, hwrite⟩ := List.mem_flatMap.1 h
  obtain ⟨-, -, hhash⟩ := hc.slots_eq s hs
  rw [hhash] at hwrite
  refine ⟨s, hs, ?_⟩
  rcases List.mem_cons.1 hwrite with rfl | hwrite
  · exact Or.inl rfl
  · exact Or.inr (List.mem_singleton.1 hwrite)

theorem initial_issued (hs : s ∈ c.slots) :
    s ∈ c.issued catalogTreeHash 0 ∧ Survives c s.value :=
  ⟨List.mem_append_left _ hs, Or.inl (List.mem_map_of_mem hs)⟩

theorem storeInitialCatalogSlots_keep (hc : CatalogChain launcherId c) :
    ∀ w ∈ storeInitialCatalogSlots c.slots, ∀ db, CatalogBase c db → CatalogBase c (w db) := by
  intro w hw db hdb
  obtain ⟨s, hs, hsaves⟩ := saves_of_mem_initial hc hw
  exact hdb.saves hc (initial_issued hs).1 (initial_issued hs).2 hsaves

/-- **After the initial writes** the tables have what is there at first. -/
theorem catalogAt_zero (hc : CatalogChain launcherId c) (hbase : CatalogBase c db) :
    CatalogAt c 0 (runWrites (storeInitialCatalogSlots c.slots) db) := by
  have hafter := runWrites_keep (storeInitialCatalogSlots_keep hc) hbase _ (List.prefix_refl _)
  have hkeys : ∀ s ∈ c.slots, ∀ t ∈ c.slots, s.value.assetId = t.value.assetId → s = t := by
    obtain ⟨live, hlive⟩ := hc.journal
    have hnodup := hlive.nodup_keys_first
    unfold Chain.values at hnodup
    rw [List.map_map] at hnodup
    exact fun s hs t ht hkey => List.inj_on_of_nodup_map hnodup hs ht hkey
  have hfresh : ∀ v, c.LiveAt 0 v →
      IsFresh (runWrites (storeInitialCatalogSlots c.slots) db) v ∧
        ∃ r ∈ (runWrites (storeInitialCatalogSlots c.slots) db).slots, r.slot.value = v := by
    intro v hv
    have hfirst := hv.1
    rw [Chain.createdBy_zero] at hfirst
    obtain ⟨s, hs, rfl⟩ := List.mem_map.1 hfirst
    obtain ⟨-, -, hhash⟩ := hc.slots_eq s hs
    obtain ⟨h, r, hr, rfl⟩ := isFresh_of_saves hc (fun s hs => initial_issued hs) hkeys
      (fun w hw => saves_of_mem_initial hc hw) hs
      (List.mem_flatMap.2 ⟨s, hs, List.mem_cons_self⟩)
      (List.mem_flatMap.2 ⟨s, hs, List.mem_cons_of_mem _ (by rw [hhash]; simp)⟩) hbase
    exact ⟨h, r, hr, rfl⟩
  refine ⟨fun r _ hspent => absurd hspent List.not_mem_nil, fun v hv => (hfresh v hv).2,
    fun v hv => Or.inl (hfresh v hv).1, fun e he => ?_⟩
  obtain ⟨v, hv, rfl⟩ := hafter.indexed e he
  rw [c.created_eq 0] at hv
  exact ⟨v, rfl, (List.mem_append.1 hv).imp (fun hv => ⟨hv, List.not_mem_nil⟩) id⟩

theorem storeCatalogSlots_sameCoins (constants : RegistryConstants)
    (pending : PendingSpend CatalogSlotValue Empty) :
    ∀ w ∈ storeCatalogSlots constants pending height, ∀ db : Db CatalogSlotValue,
      db.SameCoins (w db) := by
  intro w hw db
  rcases List.mem_append.1 (storeCatalogSlots_eq constants pending ▸ hw) with hw | hw
  · obtain ⟨v, -, rfl⟩ := List.mem_map.1 hw
    unfold markIndexed
    split
    · exact ⟨rfl, rfl⟩
    · exact ⟨rfl, rfl⟩
  · obtain ⟨v, -, rfl | rfl⟩ := saves_of_mem hw
    · exact ⟨rfl, rfl⟩
    · exact ⟨rfl, rfl⟩

end

/-- **The writes of the sync keep what the tables have**, if nothing is spent before it is
created. -/
theorem catalogKeeper {Sp : Type} (D : CatalogDriver Sp) (constants : RegistryConstants) :
    Keeper (syncCatalog D constants) (fun c => CatalogChain constants.launcherId c ∧
        Ordered c.values c.entries ∧ c.first.constants = constants)
      CatalogBase CatalogAt where
  linked hc := hc.1.linked
  given_eq hc k hk := (Option.some.inj hk).symm.trans hc.2.2.symm
  base_empty _ := ⟨nofun, nofun, nofun⟩
  base_same hsame h := by
    refine ⟨?_, ?_, ?_⟩
    · rw [hsame.slots_eq]
      exact h.rows
    · rw [hsame.slots_eq]
      exact h.survive
    · rw [hsame.catalogIndexed_eq]
      exact h.indexed
  at_same hsame h := by
    refine ⟨?_, ?_, fun v hv => ?_, ?_⟩
    · unfold Marked
      rw [hsame.slots_eq]
      exact h.marked
    · rw [hsame.slots_eq]
      exact h.present
    · refine (h.fresh v hv).imp (fun hfresh => ⟨?_, ?_, ?_⟩) fun hspent => ⟨hspent.1, ?_⟩
      · rw [hsame.slots_eq]
        exact hfresh.rows
      · rw [hsame.catalogIndexed_eq]
        exact hfresh.present
      · rw [hsame.catalogIndexed_eq]
        exact hfresh.indexed
      · unfold RowsMarked
        rw [hsame.slots_eq]
        exact hspent.2
    · rw [hsame.catalogIndexed_eq]
      exact h.indexed
  base_continues _ _ hg h := by
    refine ⟨fun r hr => hg.issued_subset _ _ (h.rows r hr), fun r hr => ?_, fun e he => ?_⟩
    · refine (h.survive r hr).imp (fun hfirst => ?_) ?_
      · rw [hg.values_eq]
        exact hfirst
      · rintro ⟨e, he, hrest⟩
        exact ⟨e, hg.entries_isPrefix.subset he, hrest⟩
    · obtain ⟨v, hv, rfl⟩ := h.indexed e he
      exact ⟨v, hg.created_subset hv, rfl⟩
  at_continues {c c' n _} _ _ hg hn h := by
    have hlive : ∀ v, c'.LiveAt n v ↔ c.LiveAt n v := by
      intro v
      unfold Chain.LiveAt
      rw [hg.createdBy_eq hn, hg.spentBy_eq hn]
    refine ⟨?_, fun v hv => h.present v ((hlive v).1 hv), fun v hv => ?_, fun e he => ?_⟩
    · unfold Marked
      rw [hg.spentBy_eq hn]
      exact h.marked
    · exact (h.fresh v ((hlive v).1 hv)).imp id fun hspent =>
        ⟨hg.spentBy_subset hspent.1, hspent.2⟩
    · obtain ⟨v, rfl, hv⟩ := h.indexed e he
      exact ⟨v, rfl, hv.imp (hlive v).2 fun hafter => hg.createdAfter_subset hafter⟩
  initial_sameCoins slots w hw db := by
    obtain ⟨s, -, hw⟩ := List.mem_flatMap.1 hw
    rcases List.mem_cons.1 hw with rfl | hw
    · exact ⟨rfl, rfl⟩
    · obtain rfl := List.mem_singleton.1 hw
      exact ⟨rfl, rfl⟩
  store_sameCoins pending _ := storeCatalogSlots_sameCoins constants pending
  initial_base hc h := runWrites_keep (storeInitialCatalogSlots_keep hc.1) h
  initial_at hc h := catalogAt_zero hc.1 h
  store_before hc hn hheight hbase hat ws hws :=
    catalogAt_before hc.1 hc.2.1 hn hheight hbase hat ws hws
  store_after hc hn hheight hbase hat := catalogAt_after hc.1 hc.2.1 hn hheight hbase hat

end SlotMachine.Sync
