import SlotMachine.Ledger.Journal
import SlotMachine.Sync.Progress

/-!
# The slots of a chain

The slots that the spends of a chain create, as they are saved: with the hash of
the value and the lineage proof of the coin that created them.

* `RegistryCoin.slot` — a slot that a spend of the coin creates.
* `Chain.issuedBy` — the slots there have been after some spends;
  `Chain.createdBy`, `Chain.spentBy` — their values, and those spent.
* `SlotChain` — **a chain whose slots are a journal**, with hashes that tell them
  apart.
* `SlotChain.eq_of_valueHash` — a slot is known by the hash of its value.
* `Marked` — what is spent is marked.
* `Chain.LiveAt` — what is live after some spends; **a spend leaves one value of each key
  that it touches**.
* `runWrites_keep`, `runWrites_reach` — what several writes keep, and what one of
  them brings about.
* `setAll` — the index after several writes.
-/

namespace SlotMachine.Sync

open Journal

/-! ## Slots -/

section

variable {V L : Type}

/-- A slot that a spend of the coin creates. -/
def RegistryCoin.slot (hash : V → Bytes) (nonce : ℕ) (r : RegistryCoin) (v : V) : Slot V :=
  ⟨r.constants.launcherId, nonce, v, hash v, r.slotProof⟩

/-- What a spend created and spent. -/
def PendingSpend.entry (p : PendingSpend V L) : Entry V := ⟨p.created, p.spent⟩

namespace Chain

variable (c : Chain V L)

/-- What the spends created and spent. -/
def entries : List (Entry V) := c.pendings.map PendingSpend.entry

/-- The values the chain starts with. -/
def values : List V := c.slots.map Slot.value

/-- The values there have been after `n` spends. -/
def createdBy (n : ℕ) : List V := created c.values (c.entries.take n)

/-- The values spent by the first `n` spends. -/
def spentBy (n : ℕ) : List V := spent (c.entries.take n)

/-- The values created after the first `n` spends. -/
def createdAfter (n : ℕ) : List V := (c.entries.drop n).flatMap Entry.created

/-- The values spent after the first `n` spends. -/
def spentAfter (n : ℕ) : List V := spent (c.entries.drop n)

/-- The slots there have been after `n` spends. -/
def issuedBy (hash : V → Bytes) (nonce : ℕ) (n : ℕ) : List (Slot V) :=
  c.slots ++ (c.pendings.take n).flatMap fun p => p.created.map (p.registry.slot hash nonce)

/-- All slots there have been. -/
def issued (hash : V → Bytes) (nonce : ℕ) : List (Slot V) := c.issuedBy hash nonce c.length

variable {c} {hash : V → Bytes} {nonce n : ℕ}

theorem length_entries : c.entries.length = c.length := by
  unfold entries
  rw [List.length_map, length_pendings]

theorem createdBy_length : c.createdBy c.length = created c.values c.entries := by
  unfold createdBy
  rw [← length_entries, List.take_length]

theorem spentBy_length : c.spentBy c.length = spent c.entries := by
  unfold spentBy
  rw [← length_entries, List.take_length]

theorem createdBy_zero : c.createdBy 0 = c.values := created_nil

theorem created_eq (c : Chain V L) (n : ℕ) :
    created c.values c.entries = c.createdBy n ++ c.createdAfter n := by
  unfold createdBy createdAfter
  rw [← created_append, List.take_append_drop]

theorem spent_eq (c : Chain V L) (n : ℕ) : spent c.entries = c.spentBy n ++ c.spentAfter n := by
  unfold spentBy spentAfter
  rw [← spent_append, List.take_append_drop]

theorem entries_eq : c.entries = c.spends.map fun s => s.pending.entry := List.map_map ..

variable (h : n < c.spends.length)
include h

theorem take_entries_succ :
    c.entries.take (n + 1) = c.entries.take n ++ [c.spends[n].pending.entry] := by
  rw [entries_eq, List.take_succ_eq_append_getElem (by simpa using h), List.getElem_map]

theorem createdBy_succ : c.createdBy (n + 1) = c.createdBy n ++ c.spends[n].pending.created := by
  unfold createdBy
  rw [take_entries_succ h, created_append, List.flatMap_singleton]
  rfl

theorem spentBy_succ : c.spentBy (n + 1) = c.spentBy n ++ c.spends[n].pending.spent := by
  unfold spentBy
  rw [take_entries_succ h, spent_append]
  simp [spent, PendingSpend.entry]

theorem drop_entries : c.entries.drop n = c.spends[n].pending.entry :: c.entries.drop (n + 1) := by
  rw [entries_eq, List.drop_eq_getElem_cons (by simpa using h), List.getElem_map]

theorem createdAfter_eq :
    c.createdAfter n = c.spends[n].pending.created ++ c.createdAfter (n + 1) := by
  unfold createdAfter
  rw [drop_entries h]
  rfl

theorem spentAfter_eq : c.spentAfter n = c.spends[n].pending.spent ++ c.spentAfter (n + 1) := by
  unfold spentAfter
  rw [drop_entries h]
  rfl

theorem issuedBy_succ : c.issuedBy hash nonce (n + 1) = c.issuedBy hash nonce n
    ++ c.spends[n].pending.created.map (c.spends[n].pending.registry.slot hash nonce) := by
  have hn : n < c.pendings.length := by rwa [length_pendings]
  have hget : c.pendings[n] = c.spends[n].pending := by simp [pendings]
  unfold issuedBy
  rw [List.take_succ_eq_append_getElem hn, List.flatMap_append, hget, List.flatMap_singleton,
    List.append_assoc]

end Chain

theorem Chain.map_value_issuedBy (c : Chain V L) (hash : V → Bytes) (nonce n : ℕ) :
    (c.issuedBy hash nonce n).map Slot.value = c.createdBy n := by
  unfold Chain.issuedBy Chain.createdBy created Chain.entries
  rw [List.map_append, List.map_flatMap, ← List.map_take, List.flatMap_map]
  refine congrArg (c.values ++ ·) (List.flatMap_congr fun p _ => ?_)
  rw [List.map_map]
  exact List.map_id _

/-- The slots after a prefix of the chain are those of the chain. -/
theorem Chain.issuedBy_subset (c : Chain V L) (hash : V → Bytes) (nonce : ℕ) (n : ℕ) :
    c.issuedBy hash nonce n ⊆ c.issued hash nonce := by
  unfold Chain.issued Chain.issuedBy
  refine List.append_subset.2 ⟨List.subset_append_left .., List.subset_append_of_subset_right _ ?_⟩
  refine ((List.Sublist.flatMap ?_ _).subset)
  rw [← Chain.length_pendings, List.take_length]
  exact List.take_sublist ..

end

/-! ## Chains that continue -/

section

variable {V L : Type} {c c' : Chain V L} {n : ℕ}

theorem Chain.Continues.values_eq (h : c.Continues c') : c'.values = c.values := by
  unfold Chain.values
  rw [h.slots_eq]

theorem Chain.Continues.entries_isPrefix (h : c.Continues c') : c.entries <+: c'.entries :=
  h.isPrefix.map _

theorem Chain.Continues.take_entries (h : c.Continues c') (hn : n ≤ c.length) :
    c'.entries.take n = c.entries.take n := by
  unfold Chain.entries
  rw [← List.map_take, ← List.map_take, h.take_pendings hn]

theorem Chain.Continues.createdBy_eq (h : c.Continues c') (hn : n ≤ c.length) :
    c'.createdBy n = c.createdBy n := by
  unfold Chain.createdBy
  rw [h.values_eq, h.take_entries hn]

theorem Chain.Continues.spentBy_eq (h : c.Continues c') (hn : n ≤ c.length) :
    c'.spentBy n = c.spentBy n := by
  unfold Chain.spentBy
  rw [h.take_entries hn]

theorem Chain.Continues.issuedBy_eq (h : c.Continues c') (hash : V → Bytes) (nonce : ℕ)
    (hn : n ≤ c.length) : c'.issuedBy hash nonce n = c.issuedBy hash nonce n := by
  unfold Chain.issuedBy
  rw [h.slots_eq, h.take_pendings hn]

theorem Chain.Continues.issued_subset (h : c.Continues c') (hash : V → Bytes) (nonce : ℕ) :
    c.issued hash nonce ⊆ c'.issued hash nonce := by
  unfold Chain.issued
  rw [← h.issuedBy_eq hash nonce le_rfl]
  exact c'.issuedBy_subset hash nonce _

theorem Chain.Continues.createdAfter_subset (h : c.Continues c') :
    c.createdAfter n ⊆ c'.createdAfter n :=
  ((h.entries_isPrefix.drop n).sublist.flatMap _).subset

theorem Chain.Continues.created_subset (h : c.Continues c') :
    created c.values c.entries ⊆ created c'.values c'.entries := by
  unfold created
  rw [h.values_eq]
  refine List.append_subset.2 ⟨List.subset_append_left .., ?_⟩
  exact List.subset_append_of_subset_right _ (h.entries_isPrefix.sublist.flatMap _).subset

theorem Chain.Continues.spentBy_subset (h : c.Continues c') : c.spentBy n ⊆ c'.spentBy n :=
  ((h.entries_isPrefix.take n).sublist.flatMap _).subset

theorem Chain.Continues.spent_subset (h : c.Continues c') : spent c.entries ⊆ spent c'.entries :=
  (h.entries_isPrefix.sublist.flatMap _).subset

end

/-! ## Chains of slots -/

/-- **A chain whose slots are a journal**, with hashes that tell them apart. -/
structure SlotChain {V L : Type} (key : V → Bytes) (rank : V → ℤ) (hash : V → Bytes)
    (launcherId : Bytes) (nonce : ℕ) (c : Chain V L) : Prop where
  linked : c.Linked launcherId
  slots_eq : ∀ s ∈ c.slots, s.launcherId = launcherId ∧ s.nonce = nonce ∧
    s.valueHash = hash s.value
  journal : ∃ live, IsJournal key rank c.values c.entries live
  hash_inj : ∀ v ∈ created c.values c.entries, ∀ w ∈ created c.values c.entries,
    hash v = hash w → v = w

namespace SlotChain

variable {V L : Type} {key : V → Bytes} {rank : V → ℤ} {hash : V → Bytes} {launcherId : Bytes}
variable {nonce : ℕ} {c : Chain V L}

/-- The slot of a value that a spend created. -/
theorem slot_mem_issued {n : ℕ} (hn : n < c.spends.length) {v : V}
    (hv : v ∈ c.spends[n].pending.created) :
    c.spends[n].pending.registry.slot hash nonce v ∈ c.issued hash nonce := by
  refine c.issuedBy_subset hash nonce (n + 1) ?_
  rw [Chain.issuedBy_succ hn]
  exact List.mem_append_right _ (List.mem_map_of_mem hv)

variable (h : SlotChain key rank hash launcherId nonce c)
include h

theorem nodup_created : (created c.values c.entries).Nodup := by
  obtain ⟨live, hlive⟩ := h.journal
  exact hlive.nodup_created

theorem registry_eq {n : ℕ} (hn : n < c.spends.length) :
    c.spends[n].pending.registry.constants.launcherId = launcherId := by
  rw [h.linked.registry_eq n hn, h.linked.constants_eq n (Nat.le_of_lt hn), h.linked.launcherId_eq]

/-- Every slot is one of the registry, with the hash of its value. -/
theorem of_mem_issued {s : Slot V} (hs : s ∈ c.issued hash nonce) :
    s.launcherId = launcherId ∧ s.nonce = nonce ∧ s.valueHash = hash s.value ∧
      s.value ∈ created c.values c.entries := by
  have hvalue : s.value ∈ created c.values c.entries := by
    rw [← Chain.createdBy_length, ← c.map_value_issuedBy hash nonce]
    exact List.mem_map_of_mem hs
  rcases List.mem_append.1 hs with hs | hs
  · obtain ⟨h1, h2, h3⟩ := h.slots_eq s hs
    exact ⟨h1, h2, h3, hvalue⟩
  · obtain ⟨p, hp, hs⟩ := List.mem_flatMap.1 hs
    obtain ⟨v, -, rfl⟩ := List.mem_map.1 hs
    obtain ⟨n, hn, rfl⟩ := List.getElem_of_mem (List.mem_of_mem_take hp)
    have hn' : n < c.spends.length := by rwa [Chain.length_pendings] at hn
    have hget : c.pendings[n] = c.spends[n].pending := by simp [Chain.pendings]
    rw [hget] at *
    exact ⟨h.registry_eq hn', rfl, rfl, hvalue⟩

/-- **A slot is known by the hash of its value.** -/
theorem eq_of_valueHash {s s' : Slot V} (hs : s ∈ c.issued hash nonce)
    (hs' : s' ∈ c.issued hash nonce) (heq : s.valueHash = s'.valueHash) : s = s' := by
  obtain ⟨-, -, hhash, hvalue⟩ := h.of_mem_issued hs
  obtain ⟨-, -, hhash', hvalue'⟩ := h.of_mem_issued hs'
  rw [hhash, hhash'] at heq
  have hnodup : ((c.issued hash nonce).map Slot.value).Nodup := by
    unfold Chain.issued
    rw [c.map_value_issuedBy, Chain.createdBy_length]
    exact h.nodup_created
  exact List.inj_on_of_nodup_map hnodup hs hs' (h.hash_inj _ hvalue _ hvalue' heq)

theorem mem_created_of_spent {v : V} (hv : v ∈ spent c.entries) :
    v ∈ created c.values c.entries := by
  obtain ⟨live, hlive⟩ := h.journal
  exact hlive.spent_subset hv

/-! ### The rows of a database that has only slots of the chain -/

variable {db : Db V} (hrows : ∀ r ∈ db.slots, r.slot ∈ c.issued hash nonce)
include hrows

theorem eq_of_primaryKey {s : Slot V} (hs : s ∈ c.issued hash nonce) {r : SlotRow V}
    (hr : r ∈ db.slots) (hkey : r.slot.primaryKey = s.primaryKey) : r.slot = s :=
  h.eq_of_valueHash (hrows r hr) hs (congrArg (fun k => k.2.2.1) hkey)

/-- Saving a slot leaves the other rows as they are. -/
theorem forall_saveSlot {s : Slot V} (hs : s ∈ c.issued hash nonce) {height : ℕ}
    {R : SlotRow V → Prop} (hother : ∀ r ∈ db.slots, r.slot ≠ s → R r) (hsaved : R ⟨s, height⟩) :
    ∀ r ∈ (db.saveSlot s height).slots, R r := by
  refine Table.forall_upsert (fun r hr hne => hother r hr fun heq => hne ?_) (fun r hr hkey => ?_)
    hsaved
  · rw [heq]
  · obtain rfl := h.eq_of_primaryKey hrows hs hr hkey
    exact hsaved

/-- The slot is saved. -/
theorem exists_saveSlot {s : Slot V} (hs : s ∈ c.issued hash nonce) (height : ℕ) :
    ∃ r ∈ (db.saveSlot s height).slots, r = ⟨s, height⟩ := by
  refine Table.exists_upsert (fun r hr hkey => ?_) rfl
  obtain rfl := h.eq_of_primaryKey hrows hs hr hkey
  rfl

/-- Marking a value as spent changes its row, if it is not marked yet. -/
theorem forall_markSlotAsSpent {v : V} (hv : v ∈ created c.values c.entries) {height : ℕ}
    {R : SlotRow V → Prop}
    (hother : ∀ r ∈ db.slots, (r.slot.value = v → r.spentBlockHeight ≠ 0) → R r)
    (hmarked : ∀ r ∈ db.slots, r.slot.value = v → R { r with spentBlockHeight := height }) :
    ∀ r ∈ (db.markSlotAsSpent launcherId nonce (hash v) height).slots, R r := by
  refine Table.forall_update (fun r hr hp => hother r hr fun hvalue hspent => ?_) fun r hr hp => ?_
  · obtain ⟨hlauncher, hnonce, hhash, -⟩ := h.of_mem_issued (hrows r hr)
    rw [hvalue] at hhash
    simp [hlauncher, hnonce, hhash, hspent] at hp
  · simp only [decide_eq_true_eq] at hp
    obtain ⟨-, -, hhash, hcreated⟩ := h.of_mem_issued (hrows r hr)
    exact hmarked r hr (h.hash_inj _ hcreated _ hv (hhash.symm.trans hp.2.2.1))

/-- What is found of a slot is a row of it. -/
theorem value_of_getSlot {v : V} {s : Slot V} (hv : v ∈ created c.values c.entries)
    (hs : db.getSlot launcherId nonce (hash v) 0 = some s) : s.value = v := by
  obtain ⟨r, hfind, rfl⟩ := Option.map_eq_some_iff.1 hs
  have hrow := List.find?_some hfind
  rw [decide_eq_true_eq] at hrow
  obtain ⟨-, -, hhash, hcreated⟩ := h.of_mem_issued (hrows r (List.mem_of_find?_eq_some hfind))
  exact h.hash_inj _ hcreated _ hv (hhash.symm.trans hrow.2.2.1)

/-- **A slot with a row that is not marked is found.** -/
theorem exists_getSlot {r : SlotRow V} (hr : r ∈ db.slots) (hunspent : r.spentBlockHeight = 0) :
    ∃ s, db.getSlot launcherId nonce (hash r.slot.value) 0 = some s ∧ s.value = r.slot.value := by
  obtain ⟨hlauncher, hnonce, hhash, hcreated⟩ := h.of_mem_issued (hrows r hr)
  cases hget : db.getSlot launcherId nonce (hash r.slot.value) 0 with
  | some s => exact ⟨s, rfl, h.value_of_getSlot hrows hcreated hget⟩
  | none =>
      have hnot := List.find?_eq_none.1 (Option.map_eq_none_iff.1 hget) r hr
      exact absurd (decide_eq_true ⟨hlauncher, hnonce, hhash, hunspent⟩) hnot

end SlotChain

/-! ## What is marked -/

/-- **What is spent is marked**, up to the first `n` spends. -/
def Marked {V L : Type} (c : Chain V L) (n : ℕ) (db : Db V) : Prop :=
  ∀ r ∈ db.slots, r.slot.value ∈ c.spentBy n → r.spentBlockHeight ≠ 0

namespace SlotChain

variable {V L : Type} {key : V → Bytes} {rank : V → ℤ} {hash : V → Bytes} {launcherId : Bytes}
variable {nonce n height : ℕ} {c : Chain V L} {db : Db V}
variable (h : SlotChain key rank hash launcherId nonce c)
include h

/-- What is spent by then is not created later. -/
theorem not_mem_createdAfter (hordered : Ordered c.values c.entries) {v : V}
    (hv : v ∈ c.spentBy n) : v ∉ c.createdAfter n := by
  have hnodup := h.nodup_created
  rw [c.created_eq n] at hnodup
  exact (List.nodup_append'.1 hnodup).2.2 (hordered n hv)

variable (hrows : ∀ r ∈ db.slots, r.slot ∈ c.issued hash nonce)
include hrows

theorem marked_saveSlot {s : Slot V} (hs : s ∈ c.issued hash nonce) (hv : s.value ∉ c.spentBy n)
    (hmarked : Marked c n db) : Marked c n (db.saveSlot s 0) :=
  h.forall_saveSlot hrows hs (fun r hr _ => hmarked r hr) fun hspent => absurd hspent hv

theorem marked_mark {v : V} (hv : v ∈ created c.values c.entries) (hheight : 0 < height)
    (hmarked : Marked c n db) : Marked c n (db.markSlotAsSpent launcherId nonce (hash v) height) :=
  h.forall_markSlotAsSpent hrows hv (fun r hr _ => hmarked r hr) fun _ _ _ _ => hheight.ne'

/-- A value that is marked as spent has no row that is not. -/
theorem marked_markSlotAsSpent {v : V} (hv : v ∈ created c.values c.entries)
    (hheight : 0 < height) : ∀ r ∈ (db.markSlotAsSpent launcherId nonce (hash v) height).slots,
      r.slot.value = v → r.spentBlockHeight ≠ 0 :=
  h.forall_markSlotAsSpent hrows hv (fun _ _ hother hvalue => hother hvalue)
    fun _ _ _ _ => hheight.ne'

end SlotChain

/-! ## The live values after some spends -/

/-- The value is live after `n` spends, if nothing is spent before it is created. -/
def Chain.LiveAt {V L : Type} (c : Chain V L) (n : ℕ) (v : V) : Prop :=
  v ∈ c.createdBy n ∧ v ∉ c.spentBy n

theorem Chain.LiveAt.mem_created {V L : Type} {c : Chain V L} {n : ℕ} {v : V}
    (h : c.LiveAt n v) : v ∈ created c.values c.entries := by
  rw [c.created_eq n]
  exact List.mem_append_left _ h.1

namespace SlotChain

variable {V L : Type} {key : V → Bytes} {rank : V → ℤ} {hash : V → Bytes} {launcherId : Bytes}
variable {nonce n : ℕ} {c : Chain V L} {v w : V}

theorem entry_mem (hn : n < c.spends.length) : c.spends[n].pending.entry ∈ c.entries := by
  rw [Chain.entries_eq]
  exact List.mem_map_of_mem (List.getElem_mem hn)

theorem mem_createdAfter (hn : n < c.spends.length) (hv : v ∈ c.spends[n].pending.created) :
    v ∈ c.createdAfter n := by
  rw [Chain.createdAfter_eq hn]
  exact List.mem_append_left _ hv

variable (h : SlotChain key rank hash launcherId nonce c)
include h

/-- **What is spent is replaced** by the same spend. -/
theorem exists_created_of_spent (hn : n < c.spends.length)
    (hv : v ∈ c.spends[n].pending.spent) :
    ∃ w ∈ c.spends[n].pending.created, key w = key v ∧ rank v < rank w := by
  obtain ⟨live, hlive⟩ := h.journal
  exact hlive.exists_replacement (entry_mem hn) hv

/-- **Of what a spend creates with some key, one value is left.** -/
theorem exists_survivor (hn : n < c.spends.length) (hv : v ∈ c.spends[n].pending.created) :
    ∃ w ∈ c.spends[n].pending.created, w ∉ c.spends[n].pending.spent ∧ key w = key v := by
  have hmem : v ∈ c.spends[n].pending.created.filter fun w => key w = key v :=
    List.mem_filter.2 ⟨hv, decide_eq_true rfl⟩
  -- the one of the highest rank has no replacement
  cases hmax : (c.spends[n].pending.created.filter fun w => key w = key v).argmax rank with
  | none =>
      rw [List.argmax_eq_none.1 hmax] at hmem
      exact absurd hmem List.not_mem_nil
  | some w =>
      obtain ⟨hw, hkey⟩ := List.mem_filter.1 (List.argmax_mem hmax)
      rw [decide_eq_true_eq] at hkey
      refine ⟨w, hw, fun hspent => ?_, hkey⟩
      obtain ⟨w', hw', hkey', hrank⟩ := h.exists_created_of_spent hn hspent
      have hmem' : w' ∈ c.spends[n].pending.created.filter fun w => key w = key v :=
        List.mem_filter.2 ⟨hw', decide_eq_true (hkey'.trans hkey)⟩
      exact absurd (List.le_of_mem_argmax hmem' hmax) (not_le.2 hrank)

/-- What is created in the place of a live value is another one. -/
theorem liveAt_ne (hn : n < c.spends.length) (hv : c.LiveAt n v)
    (hw : w ∈ c.spends[n].pending.created) : v ≠ w := by
  rintro rfl
  have hnodup := h.nodup_created
  rw [c.created_eq n] at hnodup
  exact (List.nodup_append'.1 hnodup).2.2 hv.1 (mem_createdAfter hn hw)

variable (hordered : Ordered c.values c.entries)
include hordered

/-- Two live values with one key are one value. -/
theorem eq_of_key (hv : c.LiveAt n v) (hw : c.LiveAt n w) (hkey : key v = key w) : v = w := by
  obtain ⟨live, hlive⟩ := h.journal
  obtain ⟨live', hlive'⟩ := hlive.take hordered n
  exact hlive'.eq_of_key (hlive'.mem_live.2 hv) (hlive'.mem_live.2 hw) hkey

/-- What a spend leaves live. -/
theorem liveAt_succ (hn : n < c.spends.length) : c.LiveAt (n + 1) v ↔
    (c.LiveAt n v ∨ v ∈ c.spends[n].pending.created) ∧ v ∉ c.spends[n].pending.spent := by
  unfold Chain.LiveAt
  rw [Chain.createdBy_succ hn, Chain.spentBy_succ hn]
  constructor
  · rintro ⟨hcreated, hspent⟩
    rw [List.mem_append, not_or] at hspent
    refine ⟨(List.mem_append.1 hcreated).imp (fun hv => ⟨hv, hspent.1⟩) id, hspent.2⟩
  · rintro ⟨⟨hv, hspent⟩ | hv, hspent'⟩
    · exact ⟨List.mem_append_left _ hv, fun hmem => (List.mem_append.1 hmem).elim hspent hspent'⟩
    · refine ⟨List.mem_append_right _ hv, fun hmem => (List.mem_append.1 hmem).elim ?_ hspent'⟩
      exact fun hspent => h.not_mem_createdAfter hordered hspent (mem_createdAfter hn hv)

/-- **A live value whose key is created is spent**, by the same spend. -/
theorem spent_of_created (hn : n < c.spends.length) (hv : c.LiveAt n v)
    (hw : w ∈ c.spends[n].pending.created) (hkey : key w = key v) :
    v ∈ c.spends[n].pending.spent := by
  obtain ⟨w', hw', hleft, hkey'⟩ := h.exists_survivor hn hw
  by_contra hspent
  have hlive := (h.liveAt_succ hordered hn).2 ⟨Or.inl hv, hspent⟩
  have hlive' := (h.liveAt_succ hordered hn).2 ⟨Or.inr hw', hleft⟩
  exact h.liveAt_ne hn hv hw' (h.eq_of_key hordered hlive hlive' (hkey'.trans hkey).symm)

/-- **A live value whose key is spent is spent**, by the same spend. -/
theorem spent_of_spent (hn : n < c.spends.length) (hv : c.LiveAt n v)
    (hw : w ∈ c.spends[n].pending.spent) (hkey : key w = key v) :
    v ∈ c.spends[n].pending.spent := by
  obtain ⟨w', hw', hkey', -⟩ := h.exists_created_of_spent hn hw
  exact h.spent_of_created hordered hn hv hw' (hkey'.trans hkey)

end SlotChain

/-! ## Writes -/

section

variable {V : Type} {ws : List (Write V)} {I Q : Db V → Prop} {db : Db V}

/-- What every write keeps, any number of them keeps. -/
theorem runWrites_keep (hkeep : ∀ w ∈ ws, ∀ db, I db → I (w db)) (h : I db) :
    ∀ ws', ws' <+: ws → I (runWrites ws' db) := by
  intro ws' hws'
  have hall : ∀ w ∈ ws', ∀ db, I db → I (w db) := fun w hw => hkeep w (hws'.subset hw)
  clear hws'
  induction ws' generalizing db with
  | nil => exact h
  | cons w ws' ih =>
      exact ih (hall w List.mem_cons_self db h) fun w' hw' => hall w' (List.mem_cons_of_mem _ hw')

/-- What one write brings about and all keep holds in the end. -/
theorem runWrites_reach (hkeep : ∀ w ∈ ws, ∀ db, I db → I (w db))
    (hkeep' : ∀ w ∈ ws, ∀ db, I db → Q db → Q (w db)) {w : Write V} (hw : w ∈ ws)
    (hreach : ∀ db, I db → Q (w db)) (h : I db) : Q (runWrites ws db) := by
  obtain ⟨before, after, rfl⟩ := List.append_of_mem hw
  have hbefore : I (runWrites before db) :=
    runWrites_keep (fun w' hw' => hkeep w' (List.mem_append_left _ hw')) h _ (List.prefix_refl _)
  rw [runWrites_append, runWrites_cons]
  refine (runWrites_keep (I := fun db => I db ∧ Q db) ?_ ⟨hkeep w hw _ hbefore, hreach _ hbefore⟩
    _ (List.prefix_refl _)).2
  intro w' hw' db' hdb'
  have hmem : w' ∈ before ++ w :: after := List.mem_append_right _ (List.mem_cons_of_mem _ hw')
  exact ⟨hkeep w' hmem db' hdb'.1, hkeep' w' hmem db' hdb'.1 hdb'.2⟩

end

/-! ## An index -/

section

variable {κ : Type} [DecidableEq κ]

/-- Several entries written into an index, the first one first. -/
def setAll (t : List (κ × Bytes)) (es : List (κ × Bytes)) : List (κ × Bytes) :=
  es.foldl (fun t e => Table.upsert Prod.fst (fun r => (r.1, e.2)) e t) t

/-- An entry of the index is the last one written with its key, or an old one. -/
theorem mem_setAll (t es : List (κ × Bytes)) : ∀ e ∈ setAll t es,
    lastWith Prod.fst e.1 es = some e ∨ e ∈ t ∧ ∀ e' ∈ es, e'.1 ≠ e.1 := by
  induction es using List.reverseRecOn with
  | nil => exact fun e he => Or.inr ⟨he, fun e' he' => absurd he' List.not_mem_nil⟩
  | append_singleton es e' ih =>
      have hlast : lastWith Prod.fst e'.1 (es ++ [e']) = some e' := by
        rw [lastWith_append]
        simp [lastWith]
      unfold setAll at ih ⊢
      rw [List.foldl_append]
      refine Table.forall_upsert (fun r hr hne => ?_) (fun r _ heq => Or.inl ?_) (Or.inl hlast)
      · have hnone : lastWith Prod.fst r.1 [e'] = none :=
          lastWith_eq_none.2 fun v hv => by rw [List.mem_singleton.1 hv]; exact hne.symm
        rw [lastWith_append, hnone, Option.none_or]
        refine (ih r hr).imp id fun ⟨hold, hnot⟩ => ⟨hold, fun e'' he'' => ?_⟩
        rcases List.mem_append.1 he'' with he'' | he''
        · exact hnot e'' he''
        · rw [List.mem_singleton.1 he'']
          exact hne.symm
      · have hsame : ((r.1, e'.2) : κ × Bytes) = e' := Prod.ext heq rfl
        rw [hsame]
        exact hlast

end

end SlotMachine.Sync
