import SlotMachine.Catalog.Uniqueness
import SlotMachine.Clvm.Value
import SlotMachine.Ledger.Journal

/-!
# CATalog: what the driver reports of a history

The sync knows the registry by the slots that each spend created and spent, as
values.  This file says what is reported of a history of the registry.

* `CatalogSlotValue` — a slot, with its tree.
* `Reads` — the footprint of an action, in values.
* `Reported` — a history with what is reported of its spends; `Reported.exists_live`
  says that the entries are **a journal, and what lives after it is on the chain**.
-/

namespace SlotMachine.Catalog

open Settlement SortedList Journal
open Rewriting (Rewrite)

/-! ## Slots -/

/-- A slot of the registry: a TAIL and its neighbours. -/
structure CatalogSlotValue where
  counter : ℕ
  assetId : Bytes
  neighborsLeft : Bytes
  neighborsRight : Bytes
  deriving DecidableEq

namespace CatalogSlotValue

/-- A slot as the puzzles hash it. -/
def toClvm (v : CatalogSlotValue) : Clvm :=
  slotValue (.ofInt v.counter) (.atom v.assetId) (.atom v.neighborsLeft) (.atom v.neighborsRight)

/-- The place of a slot in the list. -/
def node (v : CatalogSlotValue) : Node Bytes := ⟨v.assetId, v.neighborsLeft, v.neighborsRight⟩

theorem toClvm_injective : Function.Injective toClvm := by
  intro v w h
  cases v
  cases w
  simp only [toClvm, slotValue, Clvm.pair.injEq, Clvm.atom.injEq] at h
  obtain ⟨hcounter, rfl, rfl, rfl⟩ := h
  rw [Int.ofNat.inj (intToBytes_injective (Clvm.atom.inj hcounter))]

end CatalogSlotValue

@[simp] theorem keyOf_toClvm (v : CatalogSlotValue) : keyOf v.toClvm = some (.atom v.assetId) := rfl

@[simp] theorem nodeOf_toClvm (v : CatalogSlotValue) :
    nodeOf v.toClvm = written atoms v.node := rfl

@[simp] theorem counterOf_toClvm (v : CatalogSlotValue) : counterOf v.toClvm = v.counter :=
  intFromBytes_intToBytes v.counter

/-! ## Reports -/

/-- The footprint of an action, in values. -/
structure Reads (f : Footprint) (w : Rewrite CatalogSlotValue) : Prop where
  moves_eq : f.moves
    = w.moves.map (Prod.map CatalogSlotValue.toClvm CatalogSlotValue.toClvm)
  inserted_eq : f.inserted = w.inserted.map CatalogSlotValue.toClvm

/-- The entry is what is reported of the actions of one spend. -/
def Reports (fs : List Footprint) (e : Entry CatalogSlotValue) : Prop :=
  ∃ ws, List.Forall₂ Reads fs ws ∧ e.Records ws

/-- A history of the registry, with what is reported of each spend, and the height of its
block. -/
inductive Reported (M : Machine) (K : Constants) (r₀ : Registry) :
    List (ℕ × Entry CatalogSlotValue) → Registry → Prop where
  | start : Reported M K r₀ [] r₀
  | next {past : List (ℕ × Entry CatalogSlotValue)} {r r' : Registry} {b : Block Action}
      {steps : List (Step Action)} {fss : List (List Footprint)}
      {entries : List (Entry CatalogSlotValue)} : Reported M K r₀ past r →
      BlockStep (Action.run M K) r b steps r' →
      Footprints M K steps fss.flatten →
      fss.map List.length = b.spends.map List.length →
      List.Forall₂ Reports fss entries →
      Reported M K r₀ (past ++ entries.map (b.info.height, ·)) r'

section

variable {f : Footprint} {w : Rewrite CatalogSlotValue}

/-- A slot is replaced by one of the same TAIL with the next counter. -/
theorem Reads.bumps (h : Reads f w) (hf : f.Lawful) :
    w.Bumps CatalogSlotValue.assetId fun v => (v.counter : ℤ) := by
  have hmove : ∀ m ∈ w.moves, IsBump (m.1.toClvm, m.2.toClvm) := by
    intro m hm
    refine hf.bumps _ ?_
    rw [h.moves_eq]
    exact List.mem_map_of_mem hm
  constructor
  · intro m hm
    have hkey := (hmove m hm).key
    exact Clvm.atom.inj (Option.some.inj hkey)
  · intro m hm
    have hcounter := (hmove m hm).counterOf_eq
    rwa [counterOf_toClvm, counterOf_toClvm] at hcounter

theorem Reads.effect_eq (h : Reads f w) : f.rewrite.effect
    = w.effect.map (Multiset.mapAddMonoidHom CatalogSlotValue.toClvm) := by
  refine congrArg₂ Effect.mk ?_ ?_
  · simp [Footprint.rewrite, h.moves_eq, Rewrite.effect, Function.comp_def]
  · simp [Footprint.rewrite, h.moves_eq, h.inserted_eq, Rewrite.effect, Function.comp_def]

end

/-! ## The live slots -/

/-- A registry that has just been launched, with the values of its two sentinels. -/
structure Launched (M : Machine) (K : Constants) (S : Sentinels) (low high : CatalogSlotValue)
    (r₀ : Registry) : Prop where
  collisionFree : M.hash.CollisionFree
  kinds : K.slot1stCurryHash ≠ K.uniquenessPrelauncher1stCurryHash
  starts : Starts M.hash K S r₀
  low_eq : S.lowSlot = low.toClvm
  high_eq : S.highSlot = high.toClvm

section

variable {M : Machine} {K : Constants} {S : Sentinels} {low high : CatalogSlotValue}
variable {r₀ r : Registry} {spends : List (ℕ × Entry CatalogSlotValue)}

theorem Launched.assetId_low (h : Launched M K S low high r₀) : low.assetId = S.low := by
  have hkey := congrArg keyOf h.low_eq
  exact (Clvm.atom.inj (Option.some.inj hkey)).symm

theorem Launched.assetId_high (h : Launched M K S low high r₀) : high.assetId = S.high := by
  have hkey := congrArg keyOf h.high_eq
  exact (Clvm.atom.inj (Option.some.inj hkey)).symm

/-- A history that is reported is a history. -/
theorem Reported.exists_run (h : Reported M K r₀ spends r) :
    ∃ events, Run (Action.run M K) r₀ events r := by
  induction h with
  | start => exact ⟨[], .start⟩
  | next _ hstep _ _ _ ih =>
      obtain ⟨events, hrun⟩ := ih
      exact ⟨_, hrun.next hstep⟩

/-- The rewrites of a block, from what is reported of its spends. -/
theorem exists_rewrites {fss : List (List Footprint)} {entries : List (Entry CatalogSlotValue)}
    (h : List.Forall₂ Reports fss entries) (hlawful : ∀ f ∈ fss.flatten, f.Lawful) :
    ∃ wss, List.Forall₂ Entry.Records entries wss ∧
      (∀ w ∈ wss.flatten, w.Bumps CatalogSlotValue.assetId fun v => (v.counter : ℤ)) ∧
      fss.flatten.map (Rewrite.effect ∘ Footprint.rewrite) = (wss.flatten.map Rewrite.effect).map
        (Effect.map (Multiset.mapAddMonoidHom CatalogSlotValue.toClvm)) := by
  induction h with
  | nil => exact ⟨[], .nil, nofun, rfl⟩
  | @cons fs e fss entries hreports _ ih =>
      rw [List.flatten_cons] at hlawful
      obtain ⟨ws, hreads, hrecords⟩ := hreports
      obtain ⟨wss, hrest, hbumps, heffects⟩ :=
        ih fun f hf => hlawful f (List.mem_append_right _ hf)
      refine ⟨ws :: wss, .cons hrecords hrest, ?_, ?_⟩
      · intro w hw
        rcases List.mem_append.1 hw with hw | hw
        · obtain ⟨i, hi, rfl⟩ := List.getElem_of_mem hw
          have hi' : i < fs.length := hreads.length_eq ▸ hi
          exact (hreads.get hi' hi).bumps
            (hlawful _ (List.mem_append_left _ (List.getElem_mem hi')))
        · exact hbumps w hw
      · have hfirst : fs.map (Rewrite.effect ∘ Footprint.rewrite) = (ws.map Rewrite.effect).map
            (Effect.map (Multiset.mapAddMonoidHom CatalogSlotValue.toClvm)) := by
          clear hrecords hlawful
          induction hreads with
          | nil => rfl
          | cons hread _ ih' => rw [List.map_cons, ih', Function.comp, hread.effect_eq]; rfl
        rw [List.flatten_cons, List.flatten_cons, List.map_append, hfirst, heffects,
          List.map_append, List.map_append]

/-- **The slots after a history are those on the chain.** -/
theorem Reported.exists_behind (h0 : Launched M K S low high r₀) (h : Reported M K r₀ spends r) :
    ∃ items live wss, Behind M.hash K items r ∧ slotsOf items = live.map CatalogSlotValue.toClvm ∧
      List.Forall₂ Entry.Records (spends.map Prod.snd) wss ∧
      (∀ w ∈ wss.flatten, w.Bumps CatalogSlotValue.assetId fun v => (v.counter : ℤ)) ∧
      Settles {low, high} (Effect.total (wss.flatten.map Rewrite.effect)) live := by
  induction h with
  | start =>
      refine ⟨_, {low, high}, [], h0.starts, ?_, .nil, nofun, rfl⟩
      rw [h0.low_eq, h0.high_eq]
      rfl
  | @next past r r' b steps fss entries _ hstep hfs _ hreports ih =>
      obtain ⟨items, live, wss, hitems, hslots, hrecords, hbumps, hlive⟩ := ih
      obtain ⟨items', hitems', hsettles⟩ :=
        exists_settlement h0.collisionFree h0.kinds hstep hfs hitems
      obtain ⟨wss', hrecords', hbumps', heffects⟩ := exists_rewrites hreports hfs.lawful
      have hrewrites := settles_rewrites hsettles
      rw [List.map_map, heffects, hslots, ← Effect.map_total] at hrewrites
      -- a slot is known by its tree
      have hinj : InjOnDomain fun v : CatalogSlotValue => some v.toClvm := by
        intro v w t hv hw
        exact CatalogSlotValue.toClvm_injective (Option.some.inj (hv.trans hw.symm))
      have hrep : ∀ vs : Multiset CatalogSlotValue, Represents (fun v => some v.toClvm) vs
          (vs.map CatalogSlotValue.toClvm) := fun vs => by simp [Represents]
      obtain ⟨live', hrep', hlive'⟩ :=
        Represents.settle hinj (hrep live) (hrep _) (hrep _) hrewrites
      refine ⟨items', live', wss ++ wss', hitems', ?_, ?_, ?_, ?_⟩
      · have hmap := congrArg (Multiset.map fun o : Option Clvm => o.getD .nil) hrep'
        simpa [Multiset.map_map] using hmap.symm
      · rw [List.map_append, List.map_map]
        have hentries : entries.map (Prod.snd ∘ (b.info.height, ·)) = entries := List.map_id _
        rw [hentries]
        exact List.rel_append hrecords hrecords'
      · intro w hw
        rw [List.flatten_append] at hw
        exact (List.mem_append.1 hw).elim (hbumps w) (hbumps' w)
      · rw [List.flatten_append, List.map_append]
        exact hlive.append hlive'

/-- **The entries of a history are a journal**, and the live slots are one sorted list. -/
theorem Reported.exists_live (h0 : Launched M K S low high r₀) (h : Reported M K r₀ spends r) :
    ∃ items live, Behind M.hash K items r ∧ slotsOf items = live.map CatalogSlotValue.toClvm ∧
      IsJournal CatalogSlotValue.assetId (fun v => (v.counter : ℤ)) [low, high]
        (spends.map Prod.snd) live ∧
      ∃ l : List (Node Bytes), live.map CatalogSlotValue.node = (l : Multiset (Node Bytes)) ∧
        DoublyLinked low.assetId high.assetId l := by
  obtain ⟨items, live, wss, hitems, hslots, hrecords, hbumps, hlive⟩ := h.exists_behind h0
  obtain ⟨events, hrun⟩ := h.exists_run
  obtain ⟨items', hitems', hinv⟩ := exists_invariant h0.collisionFree h0.kinds h0.starts hrun
  obtain rfl := hitems.unique h0.collisionFree h0.kinds hitems'
  obtain ⟨l, hl⟩ := hinv.exists_listed
  have hnodes : live.map CatalogSlotValue.node = (l : Multiset (Node Bytes)) := by
    have hmap : (live.map CatalogSlotValue.node).map (written atoms)
        = (l : Multiset (Node Bytes)).map (written atoms) := by
      have hlisted := hl.nodes
      rw [nodesOf, hslots, Multiset.map_map] at hlisted
      rw [Multiset.map_map, Multiset.map_coe, ← hlisted]
      exact Multiset.map_congr rfl fun v _ => (nodeOf_toClvm v).symm
    refine Multiset.map_injective ?_ hmap
    intro a b hab
    have hnode := Option.some.inj hab
    rw [Node.ext_iff] at hnode ⊢
    exact ⟨Clvm.atom.inj hnode.1, Clvm.atom.inj hnode.2.1, Clvm.atom.inj hnode.2.2⟩
  refine ⟨items, live, hitems, hslots, ⟨⟨wss, hrecords, hbumps, hlive⟩, ?_⟩, l, hnodes, ?_⟩
  · have hkeys : live.map CatalogSlotValue.assetId
        = (live.map CatalogSlotValue.node).map Node.key := by
      rw [Multiset.map_map]
      rfl
    rw [hkeys, hnodes, Multiset.map_coe, Multiset.coe_nodup]
    exact hl.linked.nodup_keys
  · rw [h0.assetId_low, h0.assetId_high]
    exact hl.linked

end

end SlotMachine.Catalog
