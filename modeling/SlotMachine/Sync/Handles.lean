import SlotMachine.Sync.Xchandles

/-!
# Handles in the database

What a sync of an XCHandles registry leaves in the database, next to the handle slots
that are live on the chain.  The index has one slot for each handle: the one that was
created last, in the order of the actions.  The chain does not know this order.

* `HandleHistory` — the chain of a registry history; its slots are a journal.
* `OnChain` — the handle slots live after it.
* `Mirrors` — the database answers what is on the chain.
* `Current` — **the slot created last is the live one**, wherever it is asked for.
* `mirrors_iff` — the first holds exactly if the second does.
-/

namespace SlotMachine.Sync

open Journal Listener Settlement Rewriting SortedList
open Xchandles (Behind)

/-! ## Histories as chains -/

/-- All logs of a chain. -/
def Chain.logs {V L : Type} (c : Chain V L) : List L := c.spends.flatMap fun s => s.pending.logs

/-- **The chain of a registry history**: the driver reports its spends, and the slots that
they create and spend in the order of the actions. -/
structure HandleHistory (M : Machine) (K : Xchandles.Constants) (low high : HandleSlotValue)
    (r₀ : Registry) (launcherId : Bytes) (nonce : ℕ) (c : Chain HandleSlotValue ActionLog) :
    Prop where
  linked : c.Linked launcherId
  values_eq : c.values = [low, high]
  slots_eq : ∀ s ∈ c.slots, s.launcherId = launcherId ∧ s.nonce = nonce ∧
    s.valueHash = handleTreeHash s.value
  created_eq : ∀ s ∈ c.spends,
    s.pending.created = s.pending.logs.flatMap ActionLog.createdHandleSlots
  spent_eq : ∀ s ∈ c.spends, s.pending.spent = s.pending.logs.flatMap ActionLog.spentHandleSlots
  reported : ∃ blocks r, Reported M K r₀ blocks r ∧
    (c.spends.map fun s => (s.height, s.pending.logs))
      = blocks.flatMap fun b => b.spends.map (b.height, ·)
  hash_inj : ∀ v ∈ created c.values c.entries, ∀ w ∈ created c.values c.entries,
    handleTreeHash v = handleTreeHash w → v = w

/-- The handle slots on the chain. -/
def OnChain (M : Machine) (K : Xchandles.Constants) (r₀ : Registry) (low high : HandleSlotValue)
    (c : Chain HandleSlotValue ActionLog) (live : Multiset HandleSlotValue) : Prop :=
  LiveAfter {low, high} c.logs live ∧ ∃ blocks r items, Reported M K r₀ blocks r ∧
    c.logs = logsOf blocks ∧ Behind M.hash K items r ∧
    Xchandles.handlesOf items = live.map HandleSlotValue.toClvm

section

variable {M : Machine} {K : Xchandles.Constants} {S : Xchandles.Sentinels}
variable {low high : HandleSlotValue} {r₀ : Registry} {launcherId : Bytes} {nonce : ℕ}
variable {c : Chain HandleSlotValue ActionLog} {live : Multiset HandleSlotValue}

theorem logsOf_of_spends {blocks : List ReportedBlock}
    (h : (c.spends.map fun s => (s.height, s.pending.logs))
      = blocks.flatMap fun b => b.spends.map (b.height, ·)) : c.logs = logsOf blocks := by
  have hlogs := congrArg (List.flatMap Prod.snd) h
  rw [List.flatMap_map, List.flatMap_assoc] at hlogs
  refine hlogs.trans (List.flatMap_congr fun b _ => ?_)
  rw [List.flatMap_map, List.flatMap_id']
  rfl

/-- What the spends did, action by action. -/
theorem HandleHistory.records (hc : HandleHistory M K low high r₀ launcherId nonce c)
    (hlawful : ∀ log ∈ c.logs, log.Lawful) :
    List.Forall₂ Entry.Records c.entries
      (c.spends.map fun s => s.pending.logs.map ActionLog.rewrite) := by
  rw [Chain.entries_eq, List.forall₂_map_left_iff, List.forall₂_map_right_iff, List.forall₂_same]
  intro s hs
  have hlog : ∀ log ∈ s.pending.logs, log.Lawful := fun log hmem =>
    hlawful log (List.mem_flatMap.2 ⟨s, hs, hmem⟩)
  refine ⟨?_, ?_⟩
  · show s.pending.created.Perm _
    rw [hc.created_eq s hs, List.flatMap_map]
    exact List.Perm.flatMap_left _ fun log hmem => (hlog log hmem).created_perm
  · show s.pending.spent.Perm _
    rw [hc.spent_eq s hs, List.flatMap_map]
    exact List.Perm.flatMap_left _ fun log hmem => .of_eq (hlog log hmem).spent_eq

/-- **The slots of a history are a journal**, and those live on the chain are one list. -/
theorem HandleHistory.exists_live (h0 : Launched M K S low high r₀)
    (hc : HandleHistory M K low high r₀ launcherId nonce c) :
    ∃ live, OnChain M K r₀ low high c live ∧
      IsJournal HandleSlotValue.handleHash (fun v => (v.counter : ℤ)) c.values c.entries live ∧
      ∃ l : List (SortedList.Node Bytes), live.map HandleSlotValue.node = (l : Multiset _) ∧
        DoublyLinked low.handleHash high.handleHash l := by
  obtain ⟨blocks, r, hreported, hspends⟩ := hc.reported
  have hlogs := logsOf_of_spends hspends
  obtain ⟨items, live, hitems, hlive, hhandles, l, hl, hlinked⟩ := hreported.exists_live h0
  have hlawful : ∀ log ∈ c.logs, log.Lawful := by
    rw [hlogs]
    exact hreported.lawful
  refine ⟨live, ⟨hlogs ▸ hlive, blocks, r, items, hreported, hlogs, hitems, hhandles⟩,
    ⟨⟨_, hc.records hlawful, ?_, ?_⟩, hreported.nodup_handleHashes h0 hlive⟩, l, hl, ?_⟩
  · intro f hf
    rw [← List.flatMap_def] at hf
    obtain ⟨s, hs, hf⟩ := List.mem_flatMap.1 hf
    obtain ⟨log, hlog, rfl⟩ := List.mem_map.1 hf
    exact (hlawful log (List.mem_flatMap.2 ⟨s, hs, hlog⟩)).bumps
  · have heffects : ((c.spends.map fun s => s.pending.logs.map ActionLog.rewrite).flatten.map
        Rewrite.effect) = (logsOf blocks).map ActionLog.effect := by
      rw [← hlogs, ← List.flatMap_def, List.map_flatMap, Chain.logs, List.map_flatMap]
      exact List.flatMap_congr fun s _ => List.map_map ..
    rw [heffects, hc.values_eq]
    exact hlive
  · rw [h0.handleHash_low, h0.handleHash_high]
    exact hlinked

theorem HandleHistory.handleChain (h0 : Launched M K S low high r₀)
    (hc : HandleHistory M K low high r₀ launcherId nonce c) : HandleChain launcherId nonce c := by
  obtain ⟨live, -, hjournal, -⟩ := hc.exists_live h0
  exact ⟨hc.linked, hc.slots_eq, ⟨live, hjournal⟩, hc.hash_inj⟩

end

/-! ## The database after a sync -/

/-- **The slot of a handle that was created last is not spent.** -/
def IsCurrent (c : Chain HandleSlotValue ActionLog) (handleHash : Bytes) : Prop :=
  ∀ v, lastWith HandleSlotValue.handleHash handleHash (created c.values c.entries) = some v →
    v ∉ spent c.entries

/-- **Every handle is current**, and so are two neighbours with a free hash between them.
Only a sentinel may be a neighbour and no handle. -/
structure Current (low high : HandleSlotValue) (c : Chain HandleSlotValue ActionLog)
    (live : Multiset HandleSlotValue) : Prop where
  handles : ∀ v ∈ live, v.handleHash ≠ low.handleHash → v.handleHash ≠ high.handleHash →
    IsCurrent c v.handleHash
  neighbors : ∀ v ∈ live, ∀ w ∈ live, v.neighborsRight = w.handleHash →
    ∀ k, v.handleHash < k → k < w.handleHash →
    IsCurrent c v.handleHash ∧ IsCurrent c w.handleHash

/-- The slot that the index has for a handle. -/
def Db.indexedHandleSlot (db : Db HandleSlotValue) (launcherId : Bytes) (nonce : ℕ)
    (handleHash : Bytes) : Option (Slot HandleSlotValue) :=
  (db.getXchandlesIndexedSlotValue launcherId handleHash).bind (db.getSlot launcherId nonce · 0)

/-- **The database answers what is on the chain**: for every handle its live slot, and for
every other hash between the sentinels two live slots that are next to each other around it. -/
structure Mirrors (launcherId : Bytes) (nonce : ℕ) (low high : HandleSlotValue)
    (live : Multiset HandleSlotValue) (db : Db HandleSlotValue) : Prop where
  indexed : ∀ v ∈ live, v.handleHash ≠ low.handleHash → v.handleHash ≠ high.handleHash →
    ∃ s, db.indexedHandleSlot launcherId nonce v.handleHash = some s ∧ s.value = v
  neighbors : ∀ k, low.handleHash < k → k < high.handleHash → (∀ v ∈ live, v.handleHash ≠ k) →
    ∃ l r, db.getXchandlesNeighbors nonce launcherId k = .ok (l, r) ∧
      l.value ∈ live ∧ r.value ∈ live ∧ l.value.handleHash < k ∧ k < r.value.handleHash ∧
      l.value.neighborsRight = r.value.handleHash ∧ r.value.neighborsLeft = l.value.handleHash

section

variable {launcherId : Bytes} {nonce : ℕ} {c : Chain HandleSlotValue ActionLog}
variable {db : Db HandleSlotValue} {live : Multiset HandleSlotValue} {v : HandleSlotValue}
variable {k : Bytes} {s : Slot HandleSlotValue}

theorem Chain.createdAfter_length (c : Chain HandleSlotValue ActionLog) :
    c.createdAfter c.length = [] := by
  unfold Chain.createdAfter
  rw [← Chain.length_entries, List.drop_length]
  rfl

variable (hc : HandleChain launcherId nonce c) (hbase : HandlesBase launcherId nonce c db)
  (hat : HandlesAt launcherId nonce c c.length db)
include hat

/-- An entry of the index is of the slot that was created last for its handle. -/
theorem HandlesAt.entry {e : (Bytes × Bytes) × Bytes} (he : e ∈ db.xchandlesIndexed) :
    ∃ v, e = handleEntry launcherId v ∧
      lastWith HandleSlotValue.handleHash v.handleHash (created c.values c.entries) = some v := by
  obtain ⟨v, rfl, hlast | hafter⟩ := hat.indexed e he
  · rw [Chain.createdBy_length] at hlast
    exact ⟨v, rfl, hlast⟩
  · rw [c.createdAfter_length] at hafter
    exact absurd hafter List.not_mem_nil

/-- **The index has the slot that was created last.** -/
theorem HandlesAt.indexed_eq : db.getXchandlesIndexedSlotValue launcherId k
    = (lastWith HandleSlotValue.handleHash k (created c.values c.entries)).map handleTreeHash := by
  unfold Db.getXchandlesIndexedSlotValue
  cases hfind : db.xchandlesIndexed.find? fun r => r.1 = (launcherId, k) with
  | none =>
    have hnone : lastWith HandleSlotValue.handleHash k (created c.values c.entries) = none := by
      refine lastWith_eq_none.2 fun v hv heq => ?_
      rw [← Chain.createdBy_length] at hv
      obtain ⟨e, he, hkey⟩ := hat.present v hv
      have hnot := List.find?_eq_none.1 hfind e he
      rw [heq] at hkey
      exact hnot (decide_eq_true hkey)
    rw [hnone]
    rfl
  | some e =>
    obtain ⟨v, rfl, hlast⟩ := hat.entry (List.mem_of_find?_eq_some hfind)
    have hkey := List.find?_some hfind
    rw [decide_eq_true_eq] at hkey
    rw [← (Prod.mk.inj hkey).2, hlast]
    rfl

include hc hbase

/-- **A slot that is not spent is found.** -/
theorem HandlesAt.exists_getSlot (hv : v ∈ created c.values c.entries)
    (hspent : v ∉ spent c.entries) :
    ∃ s, db.getSlot launcherId nonce (handleTreeHash v) 0 = some s ∧ s.value = v := by
  rw [← Chain.createdBy_length, ← c.map_value_issuedBy handleTreeHash nonce] at hv
  obtain ⟨s, hs, rfl⟩ := List.mem_map.1 hv
  obtain ⟨r, hr, rfl⟩ := hat.stored s hs
  refine hc.exists_getSlot hbase.rows hr ?_
  by_contra hne
  exact hspent (hbase.marked r hr hne)

variable (hjournal : IsJournal HandleSlotValue.handleHash (fun v => (v.counter : ℤ)) c.values
  c.entries live)
include hjournal

/-- **What is found of a handle is its live slot exactly if this was created last.** -/
theorem HandlesAt.getSlot_last_iff (hv : v ∈ live) :
    (∃ s, ((lastWith HandleSlotValue.handleHash v.handleHash (created c.values c.entries)).map
        handleTreeHash).bind (db.getSlot launcherId nonce · 0) = some s ∧ s.value = v) ↔
      IsCurrent c v.handleHash := by
  have hcreated := (hjournal.mem_live.1 hv).1
  obtain ⟨w, hw⟩ : ∃ w, lastWith HandleSlotValue.handleHash v.handleHash
      (created c.values c.entries) = some w := exists_lastWith hcreated
  obtain ⟨hmem, hkey⟩ := mem_of_lastWith hw
  unfold IsCurrent
  rw [hw]
  constructor
  · rintro ⟨s, hs, rfl⟩ w' hw'
    have hvalue := hc.value_of_getSlot hbase.rows hmem hs
    rw [← Option.some.inj hw', ← hvalue]
    exact (hjournal.mem_live.1 hv).2
  · intro hcurrent
    have hspent := hcurrent w rfl
    have hsame : w = v := hjournal.eq_of_key (hjournal.mem_live.2 ⟨hmem, hspent⟩) hv hkey
    rw [hsame] at hspent ⊢
    exact hat.exists_getSlot hc hbase hcreated hspent

variable {low high w : HandleSlotValue} {l : List (SortedList.Node Bytes)}
  (hl : live.map HandleSlotValue.node = (l : Multiset (SortedList.Node Bytes)))
  (hlinked : DoublyLinked low.handleHash high.handleHash l)
include hl hlinked

omit hc hbase hat hjournal hlinked in
theorem node_mem (hv : v ∈ live) : v.node ∈ l := by
  have hmem := Multiset.mem_map_of_mem HandleSlotValue.node hv
  rw [hl] at hmem
  exact hmem

omit hc hbase in
/-- **The index on both sides of a free hash** has the slots of its two neighbours that were
created last. -/
theorem HandlesAt.neighbors_eq (hv : v ∈ live) (hw : w ∈ live)
    (hright : v.neighborsRight = w.handleHash) (hvk : v.handleHash < k) (hkw : k < w.handleHash) :
    db.getXchandlesNeighbors nonce launcherId k = db.neighbors launcherId nonce
      ((lastWith HandleSlotValue.handleHash v.handleHash (created c.values c.entries)).map
        handleTreeHash)
      ((lastWith HandleSlotValue.handleHash w.handleHash (created c.values c.entries)).map
        handleTreeHash) := by
  -- no handle lies between the two
  have hgap : ∀ {x : HandleSlotValue}, x ∈ created c.values c.entries →
      ¬ (v.handleHash < x.handleHash ∧ x.handleHash < w.handleHash) := by
    rintro x hx ⟨hvx, hxw⟩
    obtain ⟨y, hy, hkey⟩ := hjournal.exists_live hx
    exact hlinked.not_mem_of_gap (node_mem hl hv) (node_mem hl hw) hright hvx hxw _
      (node_mem hl hy) hkey
  have hrow : ∀ {x : HandleSlotValue}, x ∈ live →
      ∃ e ∈ db.handlesOf launcherId, e.1.2 = x.handleHash := by
    intro x hx
    have hcreated := (hjournal.mem_live.1 hx).1
    rw [← Chain.createdBy_length] at hcreated
    obtain ⟨e, he, hkey⟩ := hat.present x hcreated
    exact ⟨e, List.mem_filter.2 ⟨he, decide_eq_true (congrArg Prod.fst hkey)⟩,
      congrArg Prod.snd hkey⟩
  have hentry : ∀ {e}, e ∈ db.handlesOf launcherId → ∃ x ∈ created c.values c.entries,
      e.1.2 = x.handleHash ∧ some e.2 = (lastWith HandleSlotValue.handleHash x.handleHash
        (created c.values c.entries)).map handleTreeHash := by
    intro e he
    obtain ⟨x, rfl, hlast⟩ := hat.entry (List.mem_filter.1 he).1
    exact ⟨x, (mem_of_lastWith hlast).1, rfl, by rw [hlast]; rfl⟩
  have hbelow : ∀ {e}, e ∈ db.handlesOf launcherId → e.1.2 < k →
      ∃ e' ∈ db.handlesOf launcherId,
        Table.greatestBelow (fun r => r.1.2) k (db.handlesOf launcherId) = some e' ∧
          e'.1.2 < k ∧ ∀ s ∈ db.handlesOf launcherId, s.1.2 < k → s.1.2 ≤ e'.1.2 :=
    fun he hlt => Table.greatestBelow_spec he hlt
  have habove : ∀ {e}, e ∈ db.handlesOf launcherId → k < e.1.2 →
      ∃ e' ∈ db.handlesOf launcherId,
        Table.leastAbove (fun r => r.1.2) k (db.handlesOf launcherId) = some e' ∧
          k < e'.1.2 ∧ ∀ s ∈ db.handlesOf launcherId, k < s.1.2 → e'.1.2 ≤ s.1.2 :=
    fun he hlt => Table.leastAbove_spec he hlt
  unfold Db.getXchandlesNeighbors
  congr 1
  · obtain ⟨e, he, hkey⟩ := hrow hv
    obtain ⟨e', he', heq, hlt, hmax⟩ := hbelow he (hkey ▸ hvk)
    obtain ⟨x, hx, hxkey, hlast⟩ := hentry he'
    have hle := hmax e he (hkey ▸ hvk)
    rw [hkey, hxkey] at hle
    rw [hxkey] at hlt
    have hsame : x.handleHash = v.handleHash := by
      refine le_antisymm (not_lt.1 fun hvx => ?_) hle
      exact hgap hx ⟨hvx, hlt.trans hkw⟩
    rw [heq, ← hsame]
    exact hlast
  · obtain ⟨e, he, hkey⟩ := hrow hw
    obtain ⟨e', he', heq, hlt, hmin⟩ := habove he (hkey ▸ hkw)
    obtain ⟨x, hx, hxkey, hlast⟩ := hentry he'
    have hle := hmin e he (hkey ▸ hkw)
    rw [hkey, hxkey] at hle
    rw [hxkey] at hlt
    have hsame : x.handleHash = w.handleHash := by
      refine le_antisymm hle (not_lt.1 fun hxw => ?_)
      exact hgap hx ⟨hvk.trans hlt, hxw⟩
    rw [heq, ← hsame]
    exact hlast

/-- **The database mirrors the chain exactly if the slots asked for are current.** -/
theorem HandlesAt.mirrors_iff :
    Mirrors launcherId nonce low high live db ↔ Current low high c live := by
  have hindexed : ∀ x ∈ live, (∃ s, db.indexedHandleSlot launcherId nonce x.handleHash = some s ∧
      s.value = x) ↔ IsCurrent c x.handleHash := by
    intro x hx
    unfold Db.indexedHandleSlot
    rw [hat.indexed_eq]
    exact hat.getSlot_last_iff hc hbase hjournal hx
  constructor
  · intro h
    refine ⟨fun x hx hlow hhigh => (hindexed x hx).1 (h.indexed x hx hlow hhigh), ?_⟩
    intro x hx y hy hright k hxk hky
    have hgap : ∀ z ∈ live, z.handleHash ≠ k := fun z hz =>
      hlinked.not_mem_of_gap (node_mem hl hx) (node_mem hl hy) hright hxk hky _ (node_mem hl hz)
    obtain ⟨a, b, hquery, ha, hb, hak, hkb, hab, -⟩ := h.neighbors k
      ((hlinked.mem_bounds (node_mem hl hx)).1.trans_lt hxk)
      (hky.trans_le (hlinked.mem_bounds (node_mem hl hy)).2) hgap
    obtain ⟨hsame, hsame'⟩ := hlinked.eq_of_gap (node_mem hl ha) (node_mem hl hb) (node_mem hl hx)
      (node_mem hl hy) hab hright hak hkb hxk hky
    have hax : a.value = x := hjournal.eq_of_key ha hx hsame
    have hby : b.value = y := hjournal.eq_of_key hb hy hsame'
    rw [hat.neighbors_eq hjournal hl hlinked hx hy hright hxk hky] at hquery
    unfold Db.neighbors at hquery
    split at hquery
    · rename_i l' r' hl' hr'
      obtain ⟨rfl, rfl⟩ := Prod.mk.inj (Except.ok.inj hquery)
      exact ⟨(hat.getSlot_last_iff hc hbase hjournal hx).1 ⟨_, hl', hax⟩,
        (hat.getSlot_last_iff hc hbase hjournal hy).1 ⟨_, hr', hby⟩⟩
    · cases hquery
  · intro h
    refine ⟨fun x hx hlow hhigh => (hindexed x hx).2 (h.handles x hx hlow hhigh), ?_⟩
    intro k hlow hhigh hfree
    have hfree' : ∀ n ∈ l, n.key ≠ k := by
      intro n hn
      have hmem : n ∈ live.map HandleSlotValue.node := by
        rw [hl]
        exact hn
      obtain ⟨z, hz, rfl⟩ := Multiset.mem_map.1 hmem
      exact hfree z hz
    obtain ⟨a, ha, b, hb, hak, hkb, hab, hba⟩ := hlinked.exists_gap hlow hhigh hfree'
    have hnode : ∀ n ∈ l, ∃ z ∈ live, z.node = n := by
      intro n hn
      refine Multiset.mem_map.1 ?_
      rw [hl]
      exact hn
    obtain ⟨x, hx, rfl⟩ := hnode a ha
    obtain ⟨y, hy, rfl⟩ := hnode b hb
    obtain ⟨hcurrent, hcurrent'⟩ := h.neighbors x hx y hy hab k hak hkb
    obtain ⟨s, hs, rfl⟩ := (hat.getSlot_last_iff hc hbase hjournal hx).2 hcurrent
    obtain ⟨t, ht, rfl⟩ := (hat.getSlot_last_iff hc hbase hjournal hy).2 hcurrent'
    refine ⟨s, t, ?_, hx, hy, hak, hkb, hab, hba⟩
    rw [hat.neighbors_eq hjournal hl hlinked hx hy hab hak hkb]
    unfold Db.neighbors
    rw [hs, ht]

end

end SlotMachine.Sync
