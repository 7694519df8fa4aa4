import SlotMachine.Sync.CatalogTables
import SlotMachine.Sync.Mirror

/-!
# After a sync of a CATalog registry

What a sync leaves in the database, next to the slots that are live on the chain.

* `CatalogHistory` — the chain of a registry history; its slots are a journal.
* `CatalogMirrors` — the rows that are not marked and the index are the live slots, and
  the neighbours of a free TAIL are the live slots around it.
* `CatalogAt.mirrors` — **so it is after the last spend**.
* `RefundExample` — two refunds in one block, of which the later one creates the slot that
  the earlier one spends.
* `catalog_mirror` — **every sync ends so**, if no spend needs the slot of a later one.
-/

namespace SlotMachine.Sync

open Journal SortedList
open Catalog (CatalogSlotValue)

/-! ## Histories as chains -/

/-- What is reported of the spends of a chain. -/
def Chain.reports (c : Chain CatalogSlotValue Empty) : List (ℕ × Entry CatalogSlotValue) :=
  c.spends.map fun s => (s.height, s.pending.entry)

/-- **The chain of a registry history**: the driver reports its spends. -/
structure CatalogHistory (M : Machine) (K : Catalog.Constants) (low high : CatalogSlotValue)
    (r₀ : Registry) (constants : RegistryConstants) (c : Chain CatalogSlotValue Empty) : Prop where
  linked : c.Linked constants.launcherId
  constants_eq : c.first.constants = constants
  values_eq : c.values = [low, high]
  slots_eq : ∀ s ∈ c.slots, s.launcherId = constants.launcherId ∧ s.nonce = 0 ∧
    s.valueHash = catalogTreeHash s.value
  reported : ∃ r, Catalog.Reported M K r₀ c.reports r
  hash_inj : ∀ v ∈ created c.values c.entries, ∀ w ∈ created c.values c.entries,
    catalogTreeHash v = catalogTreeHash w → v = w

/-- The slots on the chain. -/
def CatalogOnChain (M : Machine) (K : Catalog.Constants) (r₀ : Registry)
    (c : Chain CatalogSlotValue Empty) (live : Multiset CatalogSlotValue) : Prop :=
  ∃ r items, Catalog.Reported M K r₀ c.reports r ∧ Catalog.Behind M.hash K items r ∧
    Catalog.slotsOf items = live.map CatalogSlotValue.toClvm

section

variable {M : Machine} {K : Catalog.Constants} {S : Catalog.Sentinels}
variable {low high : CatalogSlotValue} {r₀ : Registry} {constants : RegistryConstants}
variable {c : Chain CatalogSlotValue Empty}

/-- **The slots of a history are a journal**, and those live on the chain are one list. -/
theorem CatalogHistory.exists_live (h0 : Catalog.Launched M K S low high r₀)
    (hc : CatalogHistory M K low high r₀ constants c) :
    ∃ live, CatalogOnChain M K r₀ c live ∧
      IsJournal CatalogSlotValue.assetId (fun v => (v.counter : ℤ)) c.values c.entries live ∧
      ∃ l : List (SortedList.Node Bytes), live.map CatalogSlotValue.node = (l : Multiset _) ∧
        DoublyLinked low.assetId high.assetId l := by
  obtain ⟨r, hreported⟩ := hc.reported
  obtain ⟨items, live, hitems, hslots, hjournal, hlist⟩ := hreported.exists_live h0
  refine ⟨live, ⟨r, items, hreported, hitems, hslots⟩, ?_, hlist⟩
  have hentries : c.reports.map Prod.snd = c.entries := by
    rw [Chain.entries_eq, Chain.reports, List.map_map]
    rfl
  rw [hc.values_eq, ← hentries]
  exact hjournal

theorem CatalogHistory.catalogChain (h0 : Catalog.Launched M K S low high r₀)
    (hc : CatalogHistory M K low high r₀ constants c) : CatalogChain constants.launcherId c := by
  obtain ⟨live, -, hjournal, -⟩ := hc.exists_live h0
  exact ⟨hc.linked, hc.slots_eq, ⟨live, hjournal⟩, hc.hash_inj⟩

end

/-! ## The database after a sync -/

/-- **The database answers what is on the chain.** -/
structure CatalogMirrors (launcherId : Bytes) (low high : CatalogSlotValue)
    (c : Chain CatalogSlotValue Empty) (live : Multiset CatalogSlotValue)
    (db : Db CatalogSlotValue) : Prop where
  unspent : ∀ s, (∃ r ∈ db.slots, r.slot = s ∧ r.spentBlockHeight = 0) ↔
    s ∈ c.issued catalogTreeHash 0 ∧ s.value ∈ live
  indexed : ∀ e, e ∈ db.catalogIndexed ↔ ∃ v ∈ live, e = catalogEntry v
  /-- A slot that the spend that creates it spends as well is not saved. -/
  saved : ∀ r ∈ db.slots, ∀ s ∈ c.spends, r.slot.value ∈ s.pending.created →
    r.slot.value ∉ s.pending.spent
  neighbors : ∀ k, low.assetId < k → k < high.assetId → (∀ v ∈ live, v.assetId ≠ k) →
    ∃ l r, db.getCatalogNeighbors launcherId k = .ok (l, r) ∧
      l.value ∈ live ∧ r.value ∈ live ∧ l.value.assetId < k ∧ k < r.value.assetId ∧
      l.value.neighborsRight = r.value.assetId ∧ r.value.neighborsLeft = l.value.assetId

section

variable {launcherId : Bytes} {c : Chain CatalogSlotValue Empty} {db : Db CatalogSlotValue}
variable {live : Multiset CatalogSlotValue} {v : CatalogSlotValue}

variable (hjournal : IsJournal CatalogSlotValue.assetId (fun v => (v.counter : ℤ)) c.values
  c.entries live)
include hjournal

theorem liveAt_length : c.LiveAt c.length v ↔ v ∈ live := by
  unfold Chain.LiveAt
  rw [c.createdBy_length, c.spentBy_length, hjournal.mem_live]

variable (hat : CatalogAt c c.length db)
include hat

/-- After the last spend every live slot is fresh. -/
theorem CatalogAt.isFresh (hv : v ∈ live) : IsFresh db v := by
  rcases hat.fresh v ((liveAt_length hjournal).2 hv) with hfresh | ⟨hspent, -⟩
  · exact hfresh
  · have hall : c.spentBy (c.length + 1) = spent c.entries := by
      unfold Chain.spentBy
      rw [List.take_of_length_le (by rw [c.length_entries]; exact Nat.le_succ _)]
    rw [hall] at hspent
    exact absurd hspent (hjournal.mem_live.1 hv).2

/-- **The index is the live slots.** -/
theorem CatalogAt.mem_indexed {e : Bytes × Bytes} :
    e ∈ db.catalogIndexed ↔ ∃ v ∈ live, e = catalogEntry v := by
  constructor
  · intro he
    obtain ⟨v, rfl, hv | hafter⟩ := hat.indexed e he
    · exact ⟨v, (liveAt_length hjournal).1 hv, rfl⟩
    · unfold Chain.createdAfter at hafter
      rw [← c.length_entries, List.drop_length] at hafter
      exact absurd hafter List.not_mem_nil
  · rintro ⟨v, hv, rfl⟩
    have hfresh := hat.isFresh hjournal hv
    obtain ⟨e, he, hkey⟩ := hfresh.present
    exact hfresh.indexed e he hkey ▸ he

variable (hc : CatalogChain launcherId c) (hbase : CatalogBase c db)
include hc hbase

theorem CatalogAt.unspent_iff {s : Slot CatalogSlotValue} :
    (∃ r ∈ db.slots, r.slot = s ∧ r.spentBlockHeight = 0) ↔
      s ∈ c.issued catalogTreeHash 0 ∧ s.value ∈ live := by
  constructor
  · rintro ⟨r, hr, rfl, hunspent⟩
    have hissued := hbase.rows r hr
    obtain ⟨-, -, -, hcreated⟩ := hc.of_mem_issued hissued
    refine ⟨hissued, hjournal.mem_live.2 ⟨hcreated, fun hspent => ?_⟩⟩
    rw [← c.spentBy_length] at hspent
    exact hat.marked r hr hspent hunspent
  · rintro ⟨hissued, hv⟩
    obtain ⟨r, hr, hvalue⟩ := hat.present _ ((liveAt_length hjournal).2 hv)
    refine ⟨r, hr, ?_, (hat.isFresh hjournal hv).rows r hr hvalue⟩
    refine hc.eq_of_valueHash (hbase.rows r hr) hissued ?_
    rw [(hc.of_mem_issued (hbase.rows r hr)).2.2.1, (hc.of_mem_issued hissued).2.2.1, hvalue]

/-- **A live slot is found.** -/
theorem CatalogAt.exists_getSlot (hv : v ∈ live) :
    ∃ s, db.getSlot launcherId 0 (catalogTreeHash v) 0 = some s ∧ s.value = v := by
  obtain ⟨r, hr, rfl⟩ := hat.present _ ((liveAt_length hjournal).2 hv)
  exact hc.exists_getSlot hbase.rows hr ((hat.isFresh hjournal hv).rows r hr rfl)

variable {low high : CatalogSlotValue} {l : List (SortedList.Node Bytes)}
  (hl : live.map CatalogSlotValue.node = (l : Multiset (SortedList.Node Bytes)))
  (hlinked : DoublyLinked low.assetId high.assetId l)
include hl hlinked

/-- **The neighbours of a free TAIL** are the live slots around it. -/
theorem CatalogAt.exists_neighbors {k : Bytes} (hlow : low.assetId < k) (hhigh : k < high.assetId)
    (hfree : ∀ v ∈ live, v.assetId ≠ k) :
    ∃ s t, db.getCatalogNeighbors launcherId k = .ok (s, t) ∧ s.value ∈ live ∧ t.value ∈ live ∧
      s.value.assetId < k ∧ k < t.value.assetId ∧
      s.value.neighborsRight = t.value.assetId ∧ t.value.neighborsLeft = s.value.assetId := by
  have hnode : ∀ {n}, n ∈ l ↔ ∃ v ∈ live, v.node = n := by
    intro n
    rw [← Multiset.mem_coe, ← hl, Multiset.mem_map]
  have hgap := hlinked.exists_gap hlow hhigh fun n hn => by
    obtain ⟨v, hv, rfl⟩ := hnode.1 hn
    exact hfree v hv
  obtain ⟨a, ha, b, hb, hak, hkb, hab, hba⟩ := hgap
  obtain ⟨x, hx, rfl⟩ := hnode.1 ha
  obtain ⟨y, hy, rfl⟩ := hnode.1 hb
  -- no TAIL lies between the two
  have hnone : ∀ v ∈ live, ¬ (x.assetId < v.assetId ∧ v.assetId < y.assetId) := fun v hv hlt =>
    hlinked.not_mem_of_gap ha hb hab hlt.1 hlt.2 _ (hnode.2 ⟨v, hv, rfl⟩) rfl
  have hleft : (Table.greatestBelow Prod.fst k db.catalogIndexed).map Prod.snd
      = some (catalogTreeHash x) := by
    have hxk : (catalogEntry x).1 < k := hak
    obtain ⟨e, he, heq, hlt, hmax⟩ := Table.greatestBelow_spec
      ((hat.mem_indexed hjournal).2 ⟨x, hx, rfl⟩) hxk
    obtain ⟨v, hv, rfl⟩ := (hat.mem_indexed hjournal).1 he
    have hle := hmax _ ((hat.mem_indexed hjournal).2 ⟨x, hx, rfl⟩) hak
    have hsame : v = x := hjournal.eq_of_key hv hx
      (le_antisymm (not_lt.1 fun hxv => hnone v hv ⟨hxv, hlt.trans hkb⟩) hle)
    rw [heq, hsame]
    rfl
  have hright : (Table.leastAbove Prod.fst k db.catalogIndexed).map Prod.snd
      = some (catalogTreeHash y) := by
    have hky : k < (catalogEntry y).1 := hkb
    obtain ⟨e, he, heq, hlt, hmin⟩ := Table.leastAbove_spec
      ((hat.mem_indexed hjournal).2 ⟨y, hy, rfl⟩) hky
    obtain ⟨v, hv, rfl⟩ := (hat.mem_indexed hjournal).1 he
    have hle := hmin _ ((hat.mem_indexed hjournal).2 ⟨y, hy, rfl⟩) hkb
    have hsame : v = y := hjournal.eq_of_key hv hy
      (le_antisymm hle (not_lt.1 fun hvy => hnone v hv ⟨hak.trans hlt, hvy⟩))
    rw [heq, hsame]
    rfl
  obtain ⟨s, hs, rfl⟩ := hat.exists_getSlot hjournal hc hbase hx
  obtain ⟨t, ht, rfl⟩ := hat.exists_getSlot hjournal hc hbase hy
  refine ⟨s, t, ?_, hx, hy, hak, hkb, hab, hba⟩
  unfold Db.getCatalogNeighbors Db.neighbors
  rw [hleft, hright, Option.bind_some, Option.bind_some, hs, ht]

/-- **After the last spend** the database answers what is on the chain. -/
theorem CatalogAt.mirrors : CatalogMirrors launcherId low high c live db where
  unspent := fun _ => hat.unspent_iff hjournal hc hbase
  indexed := fun _ => hat.mem_indexed hjournal
  saved := by
    intro r hr s hs hcreated hspent
    obtain ⟨n, hn, rfl⟩ := List.getElem_of_mem hs
    exact not_survives hc hn hcreated hspent (hbase.survive r hr)
  neighbors := fun _ hlow hhigh hfree =>
    hat.exists_neighbors hjournal hc hbase hl hlinked hlow hhigh hfree

end

/-! ## Refunds, as an example -/

namespace RefundExample

open Settlement
open Catalog (Action RefundSolution RefundRun Footprint Reads Reports spendCoin createSlotCoin
  openingHash openingSkeletons)
open Catalog.Example (filled constants makerProgram makerHash state)

/-- The low sentinel, with any counter. -/
def low (counter : ℕ) : CatalogSlotValue := ⟨counter, filled 0, filled 0, filled 255⟩

def high : CatalogSlotValue := ⟨0, filled 255, filled 0, filled 255⟩

/-- The slot in the place of one whose TAIL is refunded. -/
def next (v : CatalogSlotValue) : CatalogSlotValue := { v with counter := v.counter + 1 }

def slots : List CatalogSlotValue := [low 0, low 1, low 2, high]

def neighbors (v : CatalogSlotValue) : Clvm :=
  .pair (.atom v.neighborsLeft) (.atom v.neighborsRight)

/-- A refund of a coin for the TAIL of the slot. -/
def solution (v : CatalogSlotValue) : RefundSolution where
  catMaker := ⟨makerProgram, .nil⟩
  other := ⟨.atom (filled 0), .atom (filled 70), .atom (filled 71)⟩
  precommitAmount := .ofInt 7
  neighborsAndCounter := .pair (neighbors v) (.ofInt v.counter)

def inner : Bytes :=
  openingHash constants (filled 0) (.atom (filled 70)) (filled 71) makerHash .nil

/-- What the refunds hash. -/
def parts : List (List Skeleton) :=
  [[.ofClvm makerProgram, .ofClvm (.pair (.atom (filled 0)) (.atom (filled 70)))],
    openingSkeletons constants (filled 0) (.atom (filled 70)) (filled 71) makerHash .nil,
    defaultCatMakerSkeletons (filled 60) (filled 61) inner,
    slots.flatMap fun v => HashOracle.slotSkeletons (filled 52) v.toClvm]

def machine : Machine := .clvm (.ofSkeletons parts.flatten) (fun _ _ => none) 20

theorem collisionFree : machine.hash.CollisionFree :=
  HashOracle.ofSkeletons_collisionFree (by decide +kernel)

theorem part {l : List Skeleton} (h : l ∈ parts) : l ⊆ parts.flatten :=
  fun _ ht => List.mem_flatten.2 ⟨l, h, ht⟩

theorem treeHash_part {v : Clvm} (h : Skeleton.ofClvm v ∈
    [Skeleton.ofClvm makerProgram, .ofClvm (.pair (.atom (filled 0)) (.atom (filled 70)))]) :
    machine.hash.treeHash v = some (Skeleton.ofClvm v).hash :=
  HashOracle.treeHash_ofSkeletons (part (List.mem_cons_self ..) h)

/-- The puzzle hash of a slot. -/
@[irreducible] def coin (v : CatalogSlotValue) : Bytes := HashOracle.slotHash (filled 52) v.toClvm

theorem slotCoin_eq {v : CatalogSlotValue} (h : v ∈ slots) :
    machine.hash.slotCoin constants.slot1stCurryHash v.toClvm = some (coin v) := by
  unfold coin
  have hpart : (slots.flatMap fun v => HashOracle.slotSkeletons (filled 52) v.toClvm) ∈ parts := by
    simp [parts]
  have hsubset : HashOracle.slotSkeletons (filled 52) v.toClvm ⊆ parts.flatten :=
    fun t ht => part hpart (List.mem_flatMap.2 ⟨v, h, ht⟩)
  exact HashOracle.slotCoin_ofSkeletons hsubset

/-- The registry with any live slots. -/
def registryOf (live : Multiset Bytes) : Registry := ⟨state.toClvm, live⟩

theorem launched : Catalog.Launched machine constants Catalog.Example.sentinels (low 0) high
    (registryOf {coin (low 0), coin high}) where
  collisionFree := collisionFree
  kinds := by decide
  starts := Catalog.starts_of_coins (slotCoin_eq (v := low 0) (by simp [slots]))
    (slotCoin_eq (v := high) (by simp [slots]))
  low_eq := rfl
  high_eq := rfl

/-- The slot can be spent by a refund. -/
structure Possible (v : CatalogSlotValue) : Prop where
  mem : v ∈ slots
  next_mem : next v ∈ slots
  assetId_eq : v.assetId = filled 0

theorem next_toClvm {v : CatalogSlotValue} (hv : Possible v) : (next v).toClvm
    = (solution v).slot (neighbors v) (.ofInt (intFromBytes (intToBytes v.counter) + 1)) := by
  have hkey : (next v).assetId = filled 0 := hv.assetId_eq
  unfold CatalogSlotValue.toClvm RefundSolution.slot
  rw [intFromBytes_intToBytes, ← Nat.cast_succ, hkey]
  rfl

theorem toClvm_eq {v : CatalogSlotValue} (hv : Possible v) :
    v.toClvm = (solution v).slot (neighbors v) (.ofInt v.counter) := by
  unfold CatalogSlotValue.toClvm RefundSolution.slot
  rw [hv.assetId_eq]
  rfl

theorem precommit_eq (v : CatalogSlotValue) : Catalog.precommitPuzzleHash machine constants
    makerProgram ((solution v).opening makerHash)
      = some (.atom (defaultCatHash (filled 60) (filled 61) inner)) := by
  have hmaker : defaultCatMaker (.ofSkeletons parts.flatten) (filled 60) (filled 61) inner
      = some (defaultCatHash (filled 60) (filled 61) inner) :=
    defaultCatMaker_ofSkeletons (part (by simp [parts]))
  have hpart : openingSkeletons constants (filled 0) (.atom (filled 70)) (filled 71) makerHash .nil
      ⊆ parts.flatten := part (by simp [parts])
  have hinner : Catalog.precommitInnerPuzzleHash machine.hash constants
      ((solution v).opening makerHash) = some inner :=
    Catalog.precommitInnerPuzzleHash_ofSkeletons hpart
  refine Catalog.precommitPuzzleHash_eq_some.2 ⟨inner, hinner, ?_⟩
  exact runCatMaker_eq_some.1 (runCatMaker_default 6 hmaker)

/-- What the refund computes. -/
def run {v : CatalogSlotValue} (hv : Possible v) : RefundRun machine constants
    (Catalog.CatalogStateTruth.mk .nil state).toClvm (solution v).toClvm where
  t := ⟨.nil, state⟩
  s := solution v
  truth_eq := Catalog.Example.truth_eq
  solution_eq := rfl
  catMakerHash := makerHash
  hashes_catMaker := treeHash_part (v := makerProgram) (by simp)
  precommit := .atom (defaultCatHash (filled 60) (filled 61) inner)
  makes := precommit_eq v
  announced := (Skeleton.ofClvm (.pair (.atom (filled 0)) (.atom (filled 70)))).hash
  hashes_announced := treeHash_part (v := .pair (.atom (filled 0)) (.atom (filled 70))) (by simp)
  valid := true
  valid_eq := Catalog.looksValid_eq_some.2 ⟨intToBytes 7, intToBytes 7, makerHash, rfl, rfl, rfl,
    by simp⟩
  slot := [spendCoin (coin v), createSlotCoin constants (coin (next v))]
  slot_eq := by
    refine Catalog.keepSlot_eq_some.2
      ⟨neighbors v, intToBytes v.counter, coin v, coin (next v), rfl, ?_, ?_, rfl⟩
    · have hslot := slotCoin_eq hv.mem
      rwa [toClvm_eq hv] at hslot
    · have hslot := slotCoin_eq hv.next_mem
      rwa [next_toClvm hv] at hslot

/-- What is reported of the refund. -/
def entry (v : CatalogSlotValue) : Entry CatalogSlotValue := ⟨[next v], [v]⟩

theorem reports {v : CatalogSlotValue} (hv : Possible v) :
    Reports [(run hv).footprint] (entry v) := by
  refine ⟨[⟨[(v, next v)], []⟩], .cons ⟨?_, rfl⟩ .nil, .refl _, .refl _⟩
  show [_] = [(v.toClvm, (next v).toClvm)]
  rw [toClvm_eq hv, next_toClvm hv]
  rfl

def call (v : CatalogSlotValue) : Call Action := ⟨.refund, (solution v).toClvm⟩

def step {v : CatalogSlotValue} (hv : Possible v) : Step Action :=
  ⟨call v, (Catalog.CatalogStateTruth.mk .nil state).toClvm,
    (Catalog.CatalogStateTruth.mk .nil state).toClvm, (run hv).conditions⟩

theorem step_effect {v : CatalogSlotValue} (hv : Possible v) :
    (step hv).effect = ⟨{coin v}, {coin (next v)}⟩ := rfl

/-- **Two refunds in one block**, in any order in which they settle. -/
theorem reported {v w : CatalogSlotValue} (hv : Possible v) (hw : Possible w)
    {live live' : Multiset Bytes} (hsettles : Settles live (Effect.total
      [⟨{coin v}, {coin (next v)}⟩, ⟨{coin w}, {coin (next w)}⟩]) live') :
    Catalog.Reported machine constants (registryOf live) [(100, entry v), (100, entry w)]
      (registryOf live') := by
  have hrun : ∀ {u : CatalogSlotValue} (hu : Possible u),
      Catalog.Action.run machine constants .refund (.pair .nil state.toClvm) (solution u).toClvm
        = some ((Catalog.CatalogStateTruth.mk .nil state).toClvm, (run hu).conditions) :=
    fun hu => Catalog.refund_eq_some.2 ⟨run hu, rfl⟩
  have hspend : ∀ {u : CatalogSlotValue} (hu : Possible u),
      SlotMachine.spend (Catalog.Action.run machine constants) state.toClvm [call u]
        = some (state.toClvm, [step hu]) := by
    intro u hu
    have hactions : runActions (Catalog.Action.run machine constants) (.pair .nil state.toClvm)
        [call u] = some (.pair .nil state.toClvm, [step hu]) := bind_intro (hrun hu) rfl
    unfold SlotMachine.spend
    rw [assertThat, if_pos (by simp)]
    exact bind_intro rfl (bind_intro hactions rfl)
  have hstep : BlockStep (Catalog.Action.run machine constants) (registryOf live)
      ⟨⟨100, 500, []⟩, [[call v], [call w]]⟩ [step hv, step hw] (registryOf live') := by
    refine ⟨bind_intro (hspend hv) (bind_intro (bind_intro (hspend hw) rfl) rfl), hsettles, ?_⟩
    intro s hs c hc
    obtain rfl | rfl : s = step hv ∨ s = step hw := by simpa using hs
    · revert c
      simp [step, RefundRun.conditions, Catalog.refundConditions, run, Condition.Holds, spendCoin,
        createSlotCoin]
    · revert c
      simp [step, RefundRun.conditions, Catalog.refundConditions, run, Condition.Holds, spendCoin,
        createSlotCoin]
  have hstart : Catalog.Reported machine constants (registryOf live) [] (registryOf live) := .start
  have hfootprints : Catalog.Footprints machine constants [step hv, step hw]
      [[(run hv).footprint], [(run hw).footprint]].flatten :=
    .cons (.refund (run hv)) (.cons (.refund (run hw)) .nil)
  exact hstart.next hstep hfootprints rfl
    (.cons (reports hv) (.cons (reports hw) .nil))

/-! ### The chain -/

def launcherId : Bytes := filled 90

def registryConstants : RegistryConstants := ⟨launcherId, .nil⟩

/-- The ids of the eve coin and of three registry coins. -/
def eveId : Bytes :=
  [137, 244, 125, 173, 52, 122, 119, 66, 6, 73, 33, 134, 168, 202, 80, 115, 137, 193, 119, 44,
    152, 160, 12, 177, 22, 22, 19, 65, 193, 15, 108, 255]

def coinIdOf (n : ℕ) : Bytes :=
  match n with
  | 0 =>
      [172, 127, 190, 196, 78, 213, 209, 207, 105, 205, 228, 37, 201, 40, 235, 113, 179, 58, 90, 73,
        109, 167, 235, 228, 15, 161, 110, 232, 46, 10, 126, 56]
  | 1 =>
      [43, 141, 178, 157, 14, 160, 141, 178, 205, 126, 246, 186, 39, 32, 15, 196, 1, 140, 133, 207,
        36, 27, 64, 156, 182, 147, 242, 159, 147, 68, 203, 102]
  | _ =>
      [240, 182, 245, 91, 47, 207, 17, 131, 118, 40, 65, 193, 19, 130, 161, 78, 152, 109, 183, 185,
        107, 88, 224, 12, 0, 114, 200, 25, 146, 162, 40, 128]

/-- The id of a coin, by its hash; the ids above are looked up. -/
def coinId (message : Bytes) : Bytes :=
  if message = launcherId ++ filled 91 ++ [1] then eveId
  else if message = eveId ++ filled 92 ++ [1] then coinIdOf 0
  else if message = coinIdOf 0 ++ filled 92 ++ [1] then coinIdOf 1
  else if message = coinIdOf 1 ++ filled 92 ++ [1] then coinIdOf 2
  else Sha256.hash message

example : ∀ message ∈ [launcherId ++ filled 91 ++ [1], eveId ++ filled 92 ++ [1],
    coinIdOf 0 ++ filled 92 ++ [1], coinIdOf 1 ++ filled 92 ++ [1]],
    coinId message = Sha256.hash message := by
  decide +kernel

def newCoin (parentCoinInfo puzzleHash : Bytes) (amount : ℕ) : Coin :=
  ⟨coinId (parentCoinInfo ++ puzzleHash ++ intToBytes amount), parentCoinInfo, amount⟩

/-- The registry coins, one after the other. -/
def registryAt (n : ℕ) : RegistryCoin :=
  ⟨newCoin (if n = 0 then eveId else coinIdOf (n - 1)) (filled 92) 1, filled 93,
    registryConstants⟩

def sentinel (v : CatalogSlotValue) : Slot CatalogSlotValue :=
  ⟨launcherId, 0, v, catalogTreeHash v, ⟨launcherId, filled 94, 1⟩⟩

/-- A spend with the refund for one slot. -/
def pending (n : ℕ) (v : CatalogSlotValue) : PendingSpend CatalogSlotValue Empty :=
  ⟨registryAt n, [next v], [v], [], registryAt (n + 1)⟩

/-- The registry is spent twice in one block. -/
def chain (v w : CatalogSlotValue) : Chain CatalogSlotValue Empty :=
  ⟨registryAt 0, [sentinel (low 0), sentinel high], [⟨100, pending 0 v⟩, ⟨100, pending 1 w⟩]⟩

/-- A spend, with its puzzle and solution read. -/
inductive ReadSpend where
  | launcher
  | eve
  | registry (pending : PendingSpend CatalogSlotValue Empty)

def ReadSpend.pending? : ReadSpend → Option (PendingSpend CatalogSlotValue Empty)
  | .registry p => some p
  | _ => none

def driver : CatalogDriver ReadSpend where
  newCoin := newCoin
  launcherSolution _ := .ok (filled 91)
  coinOf _ := newCoin launcherId (filled 91) 1
  singletonInnerPuzzleHash _ := .ok (some (filled 94))
  output _ := .ok [.other, .createCoin (filled 92) 1 (some (.atom launcherId))]
  readMemos memos := .ok (memos.bytes?.getD [], .nil)
  innerPuzzleHash _ _ := filled 93
  initialLeftEnd := low 0
  initialRightEnd := high
  fromParentSpend s _ := .ok (s.pending?.map PendingSpend.child)
  fromSpend s _ := .ok s.pending?
  fromMempoolItem s _ := .ok (s.pending?.map PendingSpend.child)

/-- A node that knows the chain. -/
def node (v w : CatalogSlotValue) : Node ReadSpend where
  coinRecord coinId :=
    if coinId = launcherId then some ⟨⟨launcherId, filled 89, 1⟩, 90, true, 90⟩
    else if coinId = coinIdOf 0 then some ⟨(registryAt 0).coin, 90, true, 100⟩
    else if coinId = coinIdOf 1 then some ⟨(registryAt 1).coin, 100, true, 100⟩
    else if coinId = coinIdOf 2 then some ⟨(registryAt 2).coin, 100, false, 0⟩
    else none
  puzzleAndSolution coinId height :=
    if coinId = launcherId ∧ height = 90 then some .launcher
    else if coinId = eveId ∧ height = 90 then some .eve
    else if coinId = coinIdOf 0 ∧ height = 100 then some (.registry (pending 0 v))
    else if coinId = coinIdOf 1 ∧ height = 100 then some (.registry (pending 1 w))
    else none
  mempoolItem _ := none

/-- The sync of the registry. -/
abbrev sync : Protocol ReadSpend CatalogSlotValue Empty := syncCatalog driver registryConstants

theorem serves (v w : CatalogSlotValue) : Serves sync (node v w) (chain v w) where
  launch_eq := rfl
  spent := by
    intro n hn
    match n, hn with
    | 0, _ => exact ⟨⟨(registryAt 0).coin, 90, true, 100⟩, .registry (pending 0 v), rfl, rfl, rfl,
        rfl, Nat.succ_pos _, Nat.succ_pos _, rfl, rfl, rfl⟩
    | 1, _ => exact ⟨⟨(registryAt 1).coin, 100, true, 100⟩, .registry (pending 1 w), rfl, rfl, rfl,
        rfl, Nat.succ_pos _, Nat.succ_pos _, rfl, rfl, rfl⟩
  tip := ⟨⟨(registryAt 2).coin, 100, false, 0⟩, rfl, rfl, rfl, rfl, Nat.succ_pos _⟩
  mempool := nofun

theorem coinAt_eq {v w : CatalogSlotValue} {n : ℕ} (hn : n ≤ 2) :
    (chain v w).coinAt n = registryAt n := by
  match n, hn with
  | 0, _ => rfl
  | 1, _ => rfl
  | 2, _ => rfl

theorem linked (v w : CatalogSlotValue) : (chain v w).Linked launcherId where
  launcherId_eq := rfl
  registry_eq := by
    intro n hn
    match n, hn with
    | 0, _ => rfl
    | 1, _ => rfl
  constants_eq := by
    intro n hn
    rw [coinAt_eq hn]
    rfl
  parent_eq := by
    intro n hn
    match n, hn with
    | 0, _ => rfl
    | 1, _ => rfl
  coinId_inj := by
    have hids : ∀ m ≤ 2, ∀ n ≤ 2, (registryAt m).coin.coinId = (registryAt n).coin.coinId →
        m = n := by
      decide
    intro m hm n hn heq
    rw [coinAt_eq hm, coinAt_eq hn] at heq
    exact hids m hm n hn heq

theorem catalogTreeHash_inj : ∀ v ∈ slots, ∀ w ∈ slots, catalogTreeHash v = catalogTreeHash w →
    v = w := by
  decide +kernel

/-- A history of the registry. -/
abbrev History (c : Chain CatalogSlotValue Empty) : Prop :=
  CatalogHistory machine constants (low 0) high (registryOf {coin (low 0), coin high})
    registryConstants c

theorem history {v w : CatalogSlotValue} (hv : Possible v) (hw : Possible w)
    {live : Multiset Bytes} (hsettles : Settles {coin (low 0), coin high} (Effect.total
      [⟨{coin v}, {coin (next v)}⟩, ⟨{coin w}, {coin (next w)}⟩]) live) : History (chain v w) where
  linked := linked v w
  constants_eq := rfl
  values_eq := rfl
  slots_eq := by
    intro s hs
    obtain rfl | rfl : s = sentinel (low 0) ∨ s = sentinel high := by simpa [chain] using hs
    · exact ⟨rfl, rfl, rfl⟩
    · exact ⟨rfl, rfl, rfl⟩
  reported := ⟨_, reported hv hw hsettles⟩
  hash_inj := by
    have hsubset : created (chain v w).values (chain v w).entries ⊆ slots := by
      have hcreated : created (chain v w).values (chain v w).entries
          = [low 0, high, next v, next w] := rfl
      intro x hx
      rw [hcreated] at hx
      simp only [List.mem_cons, List.not_mem_nil, or_false] at hx
      rcases hx with rfl | rfl | rfl | rfl
      · simp [slots]
      · simp [slots]
      · exact hv.next_mem
      · exact hw.next_mem
    exact fun x hx y hy => catalogTreeHash_inj x (hsubset hx) y (hsubset hy)

theorem possible_low {n : ℕ} (h : n < 2) : Possible (low n) := by
  obtain rfl | rfl : n = 0 ∨ n = 1 := by omega
  · exact ⟨by simp [slots], by simp [slots, next, low], rfl⟩
  · exact ⟨by simp [slots], by simp [slots, next, low], rfl⟩

/-- The refunds one after the other. -/
theorem history_ordered : History (chain (low 0) (low 1)) := by
  have hsettles : Settles {coin (low 0), coin high} (Effect.total
      [⟨{coin (low 0)}, {coin (low 1)}⟩, ⟨{coin (low 1)}, {coin (low 2)}⟩])
      {coin (low 2), coin high} :=
    (settles_replace (coin (low 0)) (coin (low 1)) {coin high}).append
      (settles_replace (coin (low 1)) (coin (low 2)) {coin high})
  exact history (possible_low (by omega)) (possible_low (by omega)) hsettles

theorem ordered : Ordered (chain (low 0) (low 1)).values (chain (low 0) (low 1)).entries := by
  intro n
  match n with
  | 0 => exact List.nil_subset _
  | 1 =>
      show [low 0] ⊆ [low 0, high, low 1]
      simp
  | n + 2 =>
      have htake : (chain (low 0) (low 1)).entries.take (n + 2)
          = (chain (low 0) (low 1)).entries := List.take_of_length_le (Nat.le_add_left 2 n)
      rw [htake]
      show [low 0, low 1] ⊆ [low 0, high, low 1, low 2]
      simp

/-- The refunds in the other order: the first one spends what the second one creates. -/
theorem history_swapped : History (chain (low 1) (low 0)) := by
  have hsettles : Settles {coin (low 0), coin high} (Effect.total
      [⟨{coin (low 1)}, {coin (low 2)}⟩, ⟨{coin (low 0)}, {coin (low 1)}⟩])
      {coin (low 2), coin high} := by
    rw [Effect.total_perm (List.Perm.swap ..)]
    exact (settles_replace (coin (low 0)) (coin (low 1)) {coin high}).append
      (settles_replace (coin (low 1)) (coin (low 2)) {coin high})
  exact history (possible_low (by omega)) (possible_low (by omega)) hsettles

/-- The database after a sync of the refunds in the other order. -/
def synced : Db CatalogSlotValue :=
  ((sync.step (node (low 1) (low 0)))^[27] (.empty, .starting)).1

theorem leads_swapped : Leads sync (node (low 1) (low 0)) (.empty, .starting)
    (synced, .done (.ok ⟨registryAt 2, [⟨100, []⟩, ⟨100, []⟩]⟩)) :=
  ⟨27, rfl⟩

/-- **A slot that is spent has a row that is not marked.** -/
theorem exists_ghost : ∃ r ∈ synced.slots, r.slot.value = low 1 ∧ r.spentBlockHeight = 0 := by
  decide +kernel

end RefundExample

/-! ## What every sync leaves -/

section

variable {M : Machine} {K : Catalog.Constants} {S : Catalog.Sentinels}
variable {low high : CatalogSlotValue} {r₀ : Registry} {c : Chain CatalogSlotValue Empty}
variable {db : Db CatalogSlotValue} {Sp : Type}

/-- **Every sync leaves what is on the chain**, if no spend spends a slot that a later one
creates: whatever runs there were, while the chain grew, a sync that is done has followed a
chain to its tip and mirrors it.  A sync that starts after any runs, and asks a node that
answers, is done after finitely many steps. -/
theorem catalog_mirror (D : CatalogDriver Sp) (constants : RegistryConstants)
    (h0 : Catalog.Launched M K S low high r₀) {stage : Stage CatalogSlotValue Empty}
    (h : Reaches (syncCatalog D constants)
      (fun c => CatalogHistory M K low high r₀ constants c ∧ Ordered c.values c.entries)
      c (db, stage)) :
    (∀ result, stage = .done (.ok result) →
      ∃ c₀ live, CatalogHistory M K low high r₀ constants c₀ ∧
        (syncCatalog D constants).ReturnsTip c₀ c result ∧ CatalogOnChain M K r₀ c₀ live ∧
        CatalogMirrors constants.launcherId low high c₀ live db) ∧
    ∀ node, Serves (syncCatalog D constants) node c →
      ∃ db' walked result live,
        Leads (syncCatalog D constants) node (db, .starting) (db', .done (.ok result)) ∧
        (syncCatalog D constants).finish node c.tip walked = .ok result ∧
        CatalogOnChain M K r₀ c live ∧
        CatalogMirrors constants.launcherId low high c live db' := by
  have hkeeper : Keeper (syncCatalog D constants)
      (fun c => CatalogHistory M K low high r₀ constants c ∧ Ordered c.values c.entries)
      CatalogBase CatalogAt :=
    (catalogKeeper D constants).mono fun hc => ⟨hc.1.catalogChain h0, hc.2, hc.1.constants_eq⟩
  have hmirrors : ∀ {c db}, CatalogHistory M K low high r₀ constants c → CatalogBase c db →
      CatalogAt c c.length db → ∃ live, CatalogOnChain M K r₀ c live ∧
        CatalogMirrors constants.launcherId low high c live db := by
    intro c db hc hbase hat
    obtain ⟨live, hlive, hjournal, l, hl, hlinked⟩ := hc.exists_live h0
    exact ⟨live, hlive, hat.mirrors hjournal (hc.catalogChain h0) hbase hl hlinked⟩
  obtain ⟨hc, hstored, hstage⟩ := h.inv hkeeper
  constructor
  · rintro result rfl
    obtain ⟨c₀, hc₀, htip, hbase, hat⟩ := hstage
    obtain ⟨live, hlive, hmirror⟩ := hmirrors hc₀.1 hbase hat
    exact ⟨c₀, live, hc₀.1, htip, hlive, hmirror⟩
  · intro node hnode
    obtain ⟨db', walked, result, hleads, hresult, hstored', hat⟩ :=
      hkeeper.completes hc hnode hstored
    obtain ⟨live, hlive, hmirror⟩ := hmirrors hc.1 hstored'.base hat
    exact ⟨db', walked, result, live, hleads, hresult, hlive, hmirror⟩

end

open RefundExample in
/-- The theorem at the example with the refunds in order, from an empty database. -/
theorem catalog_mirror_ordered : ∃ db' walked result live,
    Leads sync (node (low 0) (low 1)) (.empty, .starting) (db', .done (.ok result)) ∧
    sync.finish (node (low 0) (low 1)) (chain (low 0) (low 1)).tip walked = .ok result ∧
    CatalogOnChain machine Catalog.Example.constants (registryOf {coin (low 0), coin high})
      (chain (low 0) (low 1)) live ∧
    CatalogMirrors launcherId (low 0) high (chain (low 0) (low 1)) live db' :=
  (catalog_mirror driver registryConstants launched (.init ⟨history_ordered, ordered⟩)).2 _
    (serves _ _)

open RefundExample in
/-- **The database does not mirror the chain**: the first spend of a block spends a slot
that the second one creates, and in the end this slot has a row that is not marked. -/
theorem catalog_mirror_fails :
    ∃ (c : Chain CatalogSlotValue Empty) (db : Db CatalogSlotValue) (result : SyncResult Empty)
      (live : Multiset CatalogSlotValue),
      Reaches sync RefundExample.History c (db, .done (.ok result)) ∧ result.registry = c.tip ∧
      CatalogOnChain machine Catalog.Example.constants (registryOf {coin (low 0), coin high}) c
        live ∧
      ¬ CatalogMirrors launcherId (low 0) high c live db := by
  obtain ⟨live, hlive, hjournal, -⟩ := history_swapped.exists_live launched
  refine ⟨chain (low 1) (low 0), synced, ⟨registryAt 2, [⟨100, []⟩, ⟨100, []⟩]⟩, live, ?_, rfl,
    hlive, fun hmirrors => ?_⟩
  · exact (Reaches.init history_swapped).leads history_swapped (serves _ _) leads_swapped
  · obtain ⟨r, hr, hvalue, hunspent⟩ := exists_ghost
    have hmem := ((hmirrors.unspent r.slot).1 ⟨r, hr, rfl, hunspent⟩).2
    rw [hvalue] at hmem
    refine (hjournal.mem_live.1 hmem).2 ?_
    show low 1 ∈ [low 1, low 0]
    exact List.mem_cons_self ..

end SlotMachine.Sync
