import SlotMachine.Listener.ActionLog
import SlotMachine.Xchandles.Binding
import SlotMachine.Xchandles.Ownership

/-!
# What the driver reports of a history

The listener and the sync know the registry by its logs only.  This file says
what logs a history of the registry has: one for each action, with the slots the
action spent and created, as values.

* `HandleSlotValue.toClvm`, `UpdateSlotValue.toClvm` — the values as trees.
* `ActionLog.Reports` — a log is one of a step of the registry.
* `Reported` — a history with its logs and the handle slots live after it;
  `Reported.behind` says that these **are the ones on the chain**.
* `ActionLog.Lawful`, `Reported.lawful` — what every log says of the slots it replaces.
* `Reported.nodup_handleHashes` — **every handle has one live slot**.
-/

namespace SlotMachine.Listener

open Settlement Rewriting SortedList
open Xchandles (Action Footprint Explains Behind Sentinels Starts handlesOf keyOf nodeOf)

/-! ## Slot values as trees -/

/-- A handle slot as the puzzles hash it. -/
def HandleSlotValue.toClvm (v : HandleSlotValue) : Clvm :=
  Xchandles.handleSlotValue (.ofInt v.counter) (.atom v.handleHash)
    (.pair (.atom v.neighborsLeft) (.atom v.neighborsRight)) (.ofInt v.expiration)
    (.pair (.atom v.ownerLauncherId) (.atom v.resolvedLauncherId))

/-- An update slot as the puzzles hash it. -/
def UpdateSlotValue.toClvm (v : UpdateSlotValue) : Clvm :=
  Xchandles.updateSlotValue (.atom v.updateInitiatorCoinId) (.ofInt v.minHeight)
    (.atom v.handleHash) (.pair (.atom v.newOwnerLauncherId) (.atom v.newResolvedLauncherId))

theorem ofInt_natCast_injective : Function.Injective fun n : ℕ => Clvm.ofInt n := by
  intro m n h
  exact Int.ofNat.inj (intToBytes_injective (Clvm.atom.inj h))

theorem HandleSlotValue.toClvm_injective : Function.Injective HandleSlotValue.toClvm := by
  intro v w h
  cases v
  cases w
  simp only [toClvm, Xchandles.handleSlotValue, Clvm.pair.injEq, Clvm.atom.injEq] at h
  obtain ⟨hcounter, ⟨rfl, rfl, rfl⟩, hexpiration, rfl, rfl⟩ := h
  rw [ofInt_natCast_injective hcounter, ofInt_natCast_injective hexpiration]

theorem UpdateSlotValue.toClvm_injective : Function.Injective UpdateSlotValue.toClvm := by
  intro v w h
  cases v
  cases w
  simp only [toClvm, Xchandles.updateSlotValue, Clvm.pair.injEq, Clvm.atom.injEq] at h
  obtain ⟨⟨rfl, hheight⟩, rfl, rfl, rfl⟩ := h
  rw [ofInt_natCast_injective hheight]

@[simp] theorem keyOf_toClvm (v : HandleSlotValue) :
    keyOf v.toClvm = some (.atom v.handleHash) := rfl

@[simp] theorem nodeOf_toClvm (v : HandleSlotValue) : nodeOf v.toClvm
    = some ⟨.atom v.handleHash, .atom v.neighborsLeft, .atom v.neighborsRight⟩ := rfl

@[simp] theorem dataOf_toClvm (v : HandleSlotValue) : Xchandles.dataOf v.toClvm
    = some (.pair (.atom v.ownerLauncherId) (.atom v.resolvedLauncherId)) := rfl

@[simp] theorem counterOf_toClvm (v : HandleSlotValue) :
    Xchandles.counterOf v.toClvm = v.counter :=
  intFromBytes_intToBytes v.counter

/-! ## Logs -/

namespace ActionLog

/-- The action a log is one of. -/
def action : ActionLog → Action
  | register _ => .register
  | expire _ => .expire
  | extend _ _ => .extend
  | oracle _ _ => .oracle
  | initiateUpdate _ => .initiateUpdate
  | executeUpdate _ => .executeUpdate
  | refund _ _ => .refund
  | delegatedState => .delegatedState

/-- The handle slots the action spent, each with the one in its place. -/
def replacements : ActionLog → List (HandleSlotValue × HandleSlotValue)
  | register e => [(e.spentLeftSlot, e.createdLeftSlot), (e.spentRightSlot, e.createdRightSlot)]
  | expire e => [(e.spentSlot, e.createdSlot)]
  | extend spent created => [(spent, created)]
  | oracle spent created => [(spent, created)]
  | initiateUpdate e => [(e.spentSlot, e.createdHandleSlot)]
  | executeUpdate e => [(e.spentHandleSlot, e.createdSlot)]
  | refund (some spent) (some created) => [(spent, created)]
  | refund _ _ => []
  | delegatedState => []

/-- The handle slot of a new handle. -/
def added : ActionLog → List HandleSlotValue
  | register e => [e.createdHandleSlot]
  | _ => []

/-- The update slot the action created. -/
def opened : ActionLog → List UpdateSlotValue
  | initiateUpdate e => [e.createdUpdateSlot]
  | _ => []

/-- The update slot the action spent. -/
def closed : ActionLog → List UpdateSlotValue
  | executeUpdate e => [e.spentUpdateSlot]
  | _ => []

/-- What the action does to the handle slots. -/
def rewrite (log : ActionLog) : Rewrite HandleSlotValue := ⟨log.replacements, log.added⟩

/-- The handle slots the action consumed and created. -/
def effect (log : ActionLog) : Effect HandleSlotValue := log.rewrite.effect

/-- The log is one of an action with the given footprint. -/
structure Reports (action : Action) (f : Footprint) (log : ActionLog) : Prop where
  action_eq : log.action = action
  -- a refund reports both slots, or none
  spent_eq : log.spentHandleSlots = log.replacements.map Prod.fst
  created_perm : log.createdHandleSlots.Perm (log.replacements.map Prod.snd ++ log.added)
  moves_eq : f.moves = log.replacements.map (Prod.map HandleSlotValue.toClvm HandleSlotValue.toClvm)
  inserted_eq : f.inserted = log.added.map HandleSlotValue.toClvm
  opened_eq : f.opened = log.opened.map UpdateSlotValue.toClvm
  closed_eq : f.closed = log.closed.map UpdateSlotValue.toClvm

/-- The log is one of the step. -/
def ReportsStep (M : Machine) (K : Xchandles.Constants) (s : Step Action) (log : ActionLog) :
    Prop :=
  ∃ f, Explains M K s.truth s.call.solution s.call.action s.conditions f ∧
    log.Reports s.call.action f

/-- What holds of the slots of any log. -/
structure Lawful (log : ActionLog) : Prop where
  spent_eq : log.spentHandleSlots = log.replacements.map Prod.fst
  created_perm : log.createdHandleSlots.Perm (log.replacements.map Prod.snd ++ log.added)
  handleHash_eq : ∀ m ∈ log.replacements, m.2.handleHash = m.1.handleHash
  counter_eq : ∀ m ∈ log.replacements, m.2.counter = m.1.counter + 1
  /-- Only two actions change the data of a handle. -/
  data_eq : log.action ≠ .expire → log.action ≠ .executeUpdate → ∀ m ∈ log.replacements,
    m.2.ownerLauncherId = m.1.ownerLauncherId ∧ m.2.resolvedLauncherId = m.1.resolvedLauncherId

end ActionLog

section

variable {M : Machine} {K : Xchandles.Constants} {s : Step Action} {log : ActionLog}

/-- **The slots of a log are lawful.** -/
theorem ActionLog.ReportsStep.lawful (h : log.ReportsStep M K s) : log.Lawful := by
  obtain ⟨f, hf, hlog⟩ := h
  have hmove : ∀ m ∈ log.replacements, (m.1.toClvm, m.2.toClvm) ∈ f.moves := by
    intro m hm
    rw [hlog.moves_eq]
    exact List.mem_map_of_mem hm
  refine ⟨hlog.spent_eq, hlog.created_perm, fun m hm => ?_, fun m hm => ?_,
    fun hexpire hexecute m hm => ?_⟩
  · have hkey := (hf.lawful.bumps _ (hmove m hm)).key
    exact Clvm.atom.inj (Option.some.inj hkey)
  · have hcounter := (hf.lawful.bumps _ (hmove m hm)).counterOf_eq
    rw [counterOf_toClvm, counterOf_toClvm] at hcounter
    exact_mod_cast hcounter
  · have hdata : Xchandles.dataOf m.2.toClvm = Xchandles.dataOf m.1.toClvm := by
      have hrewrites := hf.rewrites (hmove m hm)
      rw [← hlog.action_eq] at hrewrites
      generalize log.action = action at hrewrites hexpire hexecute
      cases hrewrites with
      | execute _ => exact absurd rfl hexecute
      | expire _ => exact absurd rfl hexpire
      | extend hdata _ _ => exact hdata
      | initiate hdata _ _ _ => exact hdata
      | keep _ hdata _ => exact hdata
    rw [dataOf_toClvm, dataOf_toClvm, Option.some.injEq, Clvm.pair.injEq] at hdata
    exact ⟨Clvm.atom.inj hdata.1, Clvm.atom.inj hdata.2⟩

end

/-! ## Histories -/

/-- What is reported of a block: its height, and the logs of each spend of the registry. -/
structure ReportedBlock where
  height : ℕ
  spends : List (List ActionLog)

/-- The logs of a block. -/
def ReportedBlock.logs (b : ReportedBlock) : List ActionLog := b.spends.flatten

/-- A history of the registry, by what is reported of its blocks. -/
inductive Reported (M : Machine) (K : Xchandles.Constants) (r₀ : Registry) :
    List ReportedBlock → Registry → Prop where
  | start : Reported M K r₀ [] r₀
  | next {past : List ReportedBlock} {r r' : Registry} {b : Block Action} {steps : List (Step Action)}
      {reported : ReportedBlock} : Reported M K r₀ past r →
      BlockStep (Action.run M K) r b steps r' →
      reported.height = b.info.height →
      reported.spends.map List.length = b.spends.map List.length →
      List.Forall₂ (fun s log => ActionLog.ReportsStep M K s log) steps reported.logs →
      Reported M K r₀ (past ++ [reported]) r'

/-- The logs of a history, the first one first. -/
def logsOf (blocks : List ReportedBlock) : List ActionLog := blocks.flatMap ReportedBlock.logs

@[simp] theorem logsOf_append (bs cs : List ReportedBlock) :
    logsOf (bs ++ cs) = logsOf bs ++ logsOf cs := List.flatMap_append

/-- The handle slots that are live after some logs. -/
def LiveAfter (live₀ : Multiset HandleSlotValue) (logs : List ActionLog)
    (live : Multiset HandleSlotValue) : Prop :=
  Settles live₀ (Effect.total (logs.map ActionLog.effect)) live

section

variable {live₀ live live' : Multiset HandleSlotValue} {logs more : List ActionLog}

theorem liveAfter_nil : LiveAfter live₀ [] live₀ := rfl

theorem LiveAfter.unique (h : LiveAfter live₀ logs live) (h' : LiveAfter live₀ logs live') :
    live = live' := Settles.unique h h'

theorem LiveAfter.append (h : LiveAfter live₀ logs live) (h' : LiveAfter live more live') :
    LiveAfter live₀ (logs ++ more) live' := by
  unfold LiveAfter at *
  rw [List.map_append]
  exact Settles.append h h'

end

section

variable {M : Machine} {K : Xchandles.Constants} {r₀ r : Registry}
variable {blocks : List ReportedBlock}

/-- A history that is reported is a history. -/
theorem Reported.exists_run (h : Reported M K r₀ blocks r) :
    ∃ events, Run (Action.run M K) r₀ events r := by
  induction h with
  | start => exact ⟨[], .start⟩
  | next _ hstep _ _ _ ih =>
      obtain ⟨events, hrun⟩ := ih
      exact ⟨_, hrun.next hstep⟩

/-- **The slots of every log are lawful.** -/
theorem Reported.lawful (h : Reported M K r₀ blocks r) : ∀ log ∈ logsOf blocks, log.Lawful := by
  induction h with
  | start => exact fun log hlog => absurd hlog List.not_mem_nil
  | @next past r r' b steps reported _ _ _ _ hreports ih =>
      intro log hlog
      rw [logsOf_append] at hlog
      rcases List.mem_append.1 hlog with hlog | hlog
      · exact ih log hlog
      · have hmem : log ∈ reported.logs := by simpa [logsOf] using hlog
        obtain ⟨i, hi, rfl⟩ := List.getElem_of_mem hmem
        exact (hreports.get (by rw [hreports.length_eq]; exact hi) hi).lawful

/-- The logs of a block have footprints. -/
theorem exists_footprints_of_reports {steps : List (Step Action)} {logs : List ActionLog}
    (h : List.Forall₂ (fun s log => ActionLog.ReportsStep M K s log) steps logs) :
    ∃ fs, Xchandles.Footprints M K steps fs ∧ fs.map Footprint.handleEffect
      = (logs.map ActionLog.effect).map
          (Effect.map (Multiset.mapAddMonoidHom HandleSlotValue.toClvm)) := by
  induction h with
  | nil => exact ⟨[], .nil, rfl⟩
  | @cons s log steps logs hs _ ih =>
      obtain ⟨f, hf, hlog⟩ := hs
      obtain ⟨fs, hfs, heffects⟩ := ih
      refine ⟨f :: fs, .cons hf hfs, ?_⟩
      rw [List.map_cons, List.map_cons, List.map_cons, heffects]
      refine congrArg₂ List.cons (congrArg₂ Effect.mk ?_ ?_) rfl
      · rw [hlog.moves_eq]
        simp [ActionLog.effect, ActionLog.rewrite, Rewrite.effect, Function.comp_def]
      · rw [hlog.moves_eq, hlog.inserted_eq]
        simp [ActionLog.effect, ActionLog.rewrite, Rewrite.effect, Function.comp_def]

/-- **The slots that are live after the logs are those on the chain.** -/
theorem Reported.behind (hH : M.hash.CollisionFree)
    (hK : K.handleSlot1stCurryHash ≠ K.updateSlot1stCurryHash) (h : Reported M K r₀ blocks r)
    {live₀ : Multiset HandleSlotValue} {items₀ : Multiset Xchandles.Item}
    (hitems₀ : Behind M.hash K items₀ r₀)
    (hlive₀ : handlesOf items₀ = live₀.map HandleSlotValue.toClvm) :
    ∃ items live, Behind M.hash K items r ∧ LiveAfter live₀ (logsOf blocks) live ∧
      handlesOf items = live.map HandleSlotValue.toClvm := by
  induction h with
  | start => exact ⟨items₀, live₀, hitems₀, liveAfter_nil, hlive₀⟩
  | @next past r r' b steps reported _ hstep _ _ hreports ih =>
      obtain ⟨items, live, hitems, hlive, hhandles⟩ := ih
      obtain ⟨fs, hfs, heffects⟩ := exists_footprints_of_reports hreports
      obtain ⟨items', hitems', hsettles⟩ := Xchandles.exists_settlement hH hK hstep hfs hitems
      have hslots := Xchandles.settles_handles hsettles
      rw [heffects, hhandles, ← Effect.map_total] at hslots
      -- a slot value is known by its tree
      have hinj : InjOnDomain fun v : HandleSlotValue => some v.toClvm := by
        intro v w b hv hw
        exact HandleSlotValue.toClvm_injective (Option.some.inj (hv.trans hw.symm))
      have hrep : ∀ vs : Multiset HandleSlotValue, Represents (fun v => some v.toClvm) vs
          (vs.map HandleSlotValue.toClvm) := fun vs => by simp [Represents]
      obtain ⟨live', hrep', hlive'⟩ :=
        Represents.settle hinj (hrep live) (hrep _) (hrep _) hslots
      refine ⟨items', live', hitems', ?_, ?_⟩
      · rw [logsOf_append]
        refine hlive.append ?_
        have hlast : logsOf [reported] = reported.logs := by simp [logsOf]
        rw [hlast]
        exact hlive'
      · have hmap := congrArg (Multiset.map fun o : Option Clvm => o.getD .nil) hrep'
        simpa [Multiset.map_map] using hmap.symm

end

/-! ## The live handle slots -/

/-- A registry that has just been launched, with the values of its two sentinels. -/
structure Launched (M : Machine) (K : Xchandles.Constants) (S : Sentinels)
    (low high : HandleSlotValue) (r₀ : Registry) : Prop where
  collisionFree : M.hash.CollisionFree
  kinds : K.handleSlot1stCurryHash ≠ K.updateSlot1stCurryHash
  starts : Starts M.hash K S r₀
  low_eq : S.lowSlot = low.toClvm
  high_eq : S.highSlot = high.toClvm

/-- The place of a handle slot in the list. -/
def HandleSlotValue.node (v : HandleSlotValue) : Node Bytes :=
  ⟨v.handleHash, v.neighborsLeft, v.neighborsRight⟩

section

variable {M : Machine} {K : Xchandles.Constants} {S : Sentinels} {low high : HandleSlotValue}
variable {r₀ r : Registry} {blocks : List ReportedBlock}

theorem Launched.handleHash_low (h : Launched M K S low high r₀) : low.handleHash = S.low := by
  have hnode := S.lowSlot_node
  rw [h.low_eq, nodeOf_toClvm, Option.some.injEq, Node.mk.injEq] at hnode
  exact Clvm.atom.inj hnode.1

theorem Launched.handleHash_high (h : Launched M K S low high r₀) : high.handleHash = S.high := by
  have hnode := S.highSlot_node
  rw [h.high_eq, nodeOf_toClvm, Option.some.injEq, Node.mk.injEq] at hnode
  exact Clvm.atom.inj hnode.1

/-- **The live handle slots are one sorted list**, with the values that the logs report. -/
theorem Reported.exists_live (h0 : Launched M K S low high r₀) (h : Reported M K r₀ blocks r) :
    ∃ items live, Behind M.hash K items r ∧ LiveAfter {low, high} (logsOf blocks) live ∧
      handlesOf items = live.map HandleSlotValue.toClvm ∧
      ∃ l : List (Node Bytes), live.map HandleSlotValue.node = (l : Multiset (Node Bytes)) ∧
        DoublyLinked S.low S.high l := by
  have hlive₀ : handlesOf {.handle S.lowSlot, .handle S.highSlot}
      = ({low, high} : Multiset HandleSlotValue).map HandleSlotValue.toClvm := by
    rw [h0.low_eq, h0.high_eq]
    rfl
  obtain ⟨items, live, hitems, hlive, hhandles⟩ :=
    h.behind h0.collisionFree h0.kinds h0.starts hlive₀
  obtain ⟨events, hrun⟩ := h.exists_run
  obtain ⟨items', hitems', hinv⟩ :=
    Xchandles.exists_invariant h0.collisionFree h0.kinds h0.starts hrun
  obtain rfl := hitems.unique h0.collisionFree h0.kinds hitems'
  obtain ⟨l, hl, hlinked⟩ := hinv.exists_doublyLinked
  refine ⟨items, live, hitems, hlive, hhandles, l, ?_, hlinked⟩
  rw [Xchandles.nodesOf, hhandles, Multiset.map_map] at hl
  have hwritten : ∀ v : HandleSlotValue,
      nodeOf v.toClvm = SortedList.written Xchandles.atoms v.node := fun _ => rfl
  have hmap : (live.map HandleSlotValue.node).map (SortedList.written Xchandles.atoms)
      = (l : Multiset (Node Bytes)).map (SortedList.written Xchandles.atoms) := by
    rw [Multiset.map_map, Multiset.map_coe, ← hl]
    exact Multiset.map_congr rfl fun v _ => (hwritten v).symm
  refine Multiset.map_injective ?_ hmap
  intro a b hab
  have hnode := Option.some.inj hab
  rw [Node.ext_iff] at hnode ⊢
  exact ⟨Clvm.atom.inj hnode.1, Clvm.atom.inj hnode.2.1, Clvm.atom.inj hnode.2.2⟩

theorem ActionLog.Lawful.bumps {log : ActionLog} (h : log.Lawful) :
    log.rewrite.Bumps HandleSlotValue.handleHash fun v => (v.counter : ℤ) where
  key_eq := h.handleHash_eq
  rank_eq := fun m hm => by
    rw [h.counter_eq m hm]
    exact Nat.cast_succ _

/-- **Every handle has one live slot.** -/
theorem Reported.nodup_handleHashes (h0 : Launched M K S low high r₀)
    (h : Reported M K r₀ blocks r) {live : Multiset HandleSlotValue}
    (hlive : LiveAfter {low, high} (logsOf blocks) live) :
    (live.map HandleSlotValue.handleHash).Nodup := by
  obtain ⟨items, live', -, hlive', -, l, hl, hlinked⟩ := h.exists_live h0
  obtain rfl := hlive.unique hlive'
  have hkeys : live.map HandleSlotValue.handleHash
      = (live.map HandleSlotValue.node).map Node.key := by
    rw [Multiset.map_map]
    rfl
  rw [hkeys, hl, Multiset.map_coe, Multiset.coe_nodup]
  exact hlinked.nodup_keys

/-- No new handle has the key of a sentinel. -/
theorem Reported.ne_sentinel (h0 : Launched M K S low high r₀) (h : Reported M K r₀ blocks r) :
    ∀ log ∈ logsOf blocks, ∀ v ∈ log.added,
      v.handleHash ≠ low.handleHash ∧ v.handleHash ≠ high.handleHash := by
  intro log hlog v hv
  obtain ⟨items, live, -, hlive, -⟩ := h.exists_live h0
  have hnodup := h.nodup_handleHashes h0 hlive
  have hsettles : Settles {low, high} (Effect.total
      (((logsOf blocks).map ActionLog.rewrite).map Rewrite.effect)) live := by
    rw [List.map_map]
    exact hlive
  have hbumps : ∀ f ∈ (logsOf blocks).map ActionLog.rewrite,
      f.Bumps HandleSlotValue.handleHash fun v => (v.counter : ℤ) := by
    intro f hf
    obtain ⟨log, hlog, rfl⟩ := List.mem_map.1 hf
    exact (h.lawful log hlog).bumps
  rw [keys_settles hbumps hsettles] at hnodup
  have hadded : v.handleHash ∈ ((((logsOf blocks).map ActionLog.rewrite).flatMap
      Rewrite.inserted).map HandleSlotValue.handleHash : Multiset Bytes) := by
    refine Multiset.mem_coe.2 (List.mem_map_of_mem (List.mem_flatMap.2 ⟨log.rewrite, ?_, hv⟩))
    exact List.mem_map_of_mem hlog
  have hdisjoint := (Multiset.nodup_add.1 hnodup).2.2
  refine ⟨fun heq => ?_, fun heq => ?_⟩
  · exact Multiset.disjoint_left.1 hdisjoint (by simp [heq]) hadded
  · exact Multiset.disjoint_left.1 hdisjoint (by simp [heq]) hadded

end

/-! ## Registrations, as an example -/

namespace HistoryExample

open Xchandles.Example (bytes32 constants makerProgram makerHash pricingProgram pricingHash)
open Xchandles (RegisterSolution RegisterRun ExpireSolution ExpireRun XchandlesState
  XchandlesStateTruth)

/-- The state of a registry that sells handles for a fixed price. -/
def state : XchandlesState := ⟨.atom makerHash, .atom pricingHash, .atom pricingHash⟩

def low : HandleSlotValue := ⟨0, bytes32 0, bytes32 0, bytes32 255, 1000, bytes32 9, bytes32 9⟩

def high : HandleSlotValue := ⟨0, bytes32 255, bytes32 0, bytes32 255, 1000, bytes32 9, bytes32 9⟩

def handleHash (handle : Bytes) : Bytes := (Skeleton.atom handle).hash

/-- A registration of a handle between two slots, for an owner that it resolves to. -/
structure Registration where
  handle : Bytes
  left : HandleSlotValue
  right : HandleSlotValue
  owner : Bytes

namespace Registration

variable (x : Registration)

def solution : RegisterSolution where
  handleHash := .atom (handleHash x.handle)
  leftValue := .atom x.left.handleHash
  rightValue := .atom x.right.handleHash
  catMaker := ⟨makerProgram, .nil⟩
  handlePricing := ⟨pricingProgram, ⟨.ofInt 500, .nil, .atom x.handle, .nil⟩⟩
  left := ⟨.ofInt x.left.counter, .atom x.left.neighborsLeft, .pair (.ofInt x.left.expiration)
    (.pair (.atom x.left.ownerLauncherId) (.atom x.left.resolvedLauncherId))⟩
  right := ⟨.ofInt x.right.counter, .atom x.right.neighborsRight, .pair (.ofInt x.right.expiration)
    (.pair (.atom x.right.ownerLauncherId) (.atom x.right.resolvedLauncherId))⟩
  ownerInnerPuzzleHash := .atom (bytes32 23)
  resolvedInnerPuzzleHash := .atom (bytes32 23)
  other := ⟨⟨.atom x.owner, .atom x.owner⟩, .atom (bytes32 21), .atom (bytes32 22)⟩

/-- The neighbours with the next counter, and the new slot. -/
def newLeft : HandleSlotValue :=
  { x.left with counter := x.left.counter + 1, neighborsRight := handleHash x.handle }

def newRight : HandleSlotValue :=
  { x.right with counter := x.right.counter + 1, neighborsLeft := handleHash x.handle }

def newSlot : HandleSlotValue :=
  ⟨0, handleHash x.handle, x.left.handleHash, x.right.handleHash, 866, x.owner, x.owner⟩

def inner : Bytes := Xchandles.precommitInnerHash constants (bytes32 21)
  (x.solution.precommitValue state)

def ownerHash : Bytes := HashOracle.singletonHash (bytes32 1) (bytes32 2) x.owner (bytes32 23)

/-- What is reported of it. -/
def log : ActionLog := .register
  { spentLeftSlot := x.left
    spentRightSlot := x.right
    createdLeftSlot := x.newLeft
    createdHandleSlot := x.newSlot
    createdRightSlot := x.newRight
    precommitValue := ⟨"handle", bytes32 22⟩
    totalPrice := 7
    puzzles := ⟨x.ownerHash, none, bytes32 23, bytes32 23⟩ }

/-- The slots it touches. -/
def slots : List HandleSlotValue := [x.left, x.right, x.newLeft, x.newRight, x.newSlot]

/-- What it hashes, but for its slots and the two programs. -/
def skeletons : List Skeleton :=
  Skeleton.atom x.handle :: Xchandles.precommitSkeletons constants (bytes32 21)
      (x.solution.precommitValue state)
    ++ defaultCatMakerSkeletons (bytes32 30) (bytes32 31) x.inner
    ++ HashOracle.singletonSkeletons (bytes32 1) (bytes32 2) x.owner (bytes32 23)

end Registration

/-- The first handle, and one next to it, for the same owner or for another one. -/
def first : Registration := ⟨[104], low, high, bytes32 20⟩

def second : Registration := ⟨[105], first.newSlot, first.newRight, bytes32 20⟩

def other : Registration := ⟨[105], first.newSlot, first.newRight, bytes32 29⟩

/-- The purchase of the other owner's handle by the first one, after its expiration. -/
def purchase : ExpireSolution where
  pricing := ⟨pricingProgram, ⟨.ofInt 900, .ofInt 866, .atom other.handle, .nil⟩⟩
  catMaker := ⟨makerProgram, .nil⟩
  other := ⟨⟨.atom first.owner, .atom first.owner⟩, .atom (bytes32 21), .atom (bytes32 22)⟩
  counter := .nil
  neighbors := .pair (.atom other.left.handleHash) (.atom other.right.handleHash)
  oldRest := .pair (.atom other.owner) (.atom other.owner)
  newOwnerInnerPuzzleHash := .atom (bytes32 23)
  newResolvedInnerPuzzleHash := .atom (bytes32 23)

/-- The slot of the handle after it. -/
def bought : HandleSlotValue :=
  { other.newSlot with
    counter := 1, expiration := 1266, ownerLauncherId := first.owner,
    resolvedLauncherId := first.owner }

def purchaseInner : Bytes :=
  Xchandles.precommitInnerHash constants (bytes32 21) (purchase.precommitValue state)

/-- What is reported of the purchase. -/
def purchaseLog : ActionLog := .expire
  { spentSlot := other.newSlot
    createdSlot := bought
    precommitValue := ⟨"other", bytes32 22⟩
    totalPrice := 7
    puzzles := ⟨first.ownerHash, none, bytes32 23, bytes32 23⟩ }

def slots : List HandleSlotValue :=
  [low, high, first.newLeft, first.newRight, first.newSlot, second.newLeft, second.newRight,
    second.newSlot, other.newSlot, bought]

def programs : List Skeleton := [.ofClvm makerProgram, .ofClvm pricingProgram]

/-- What the registrations and the purchase hash. -/
def parts : List (List Skeleton) :=
  [programs, slots.flatMap fun v => HashOracle.slotSkeletons (bytes32 4) v.toClvm,
    first.skeletons, second.skeletons, other.skeletons,
    Xchandles.precommitSkeletons constants (bytes32 21) (purchase.precommitValue state),
    defaultCatMakerSkeletons (bytes32 30) (bytes32 31) purchaseInner]

def machine : Machine := .clvm (.ofSkeletons parts.flatten) (fun _ _ => none) 20

theorem collisionFree : machine.hash.CollisionFree :=
  HashOracle.ofSkeletons_collisionFree (by decide +kernel)

theorem part {l : List Skeleton} (h : l ∈ parts) : l ⊆ parts.flatten :=
  fun _ ht => List.mem_flatten.2 ⟨l, h, ht⟩

/-- The puzzle hash of a slot. -/
@[irreducible] def coin (v : HandleSlotValue) : Bytes := HashOracle.slotHash (bytes32 4) v.toClvm

theorem slotCoin_eq {v : HandleSlotValue} (h : v ∈ slots) :
    machine.hash.slotCoin constants.handleSlot1stCurryHash v.toClvm = some (coin v) := by
  unfold coin
  have hpart : (slots.flatMap fun v => HashOracle.slotSkeletons (bytes32 4) v.toClvm) ∈ parts :=
    List.mem_cons_of_mem _ (List.mem_cons_self ..)
  exact HashOracle.slotCoin_ofSkeletons fun _ ht => part hpart (List.mem_flatMap.2 ⟨v, h, ht⟩)

theorem treeHash_program {v : Clvm} (h : Skeleton.ofClvm v ∈ programs) :
    machine.hash.treeHash v = some (Skeleton.ofClvm v).hash :=
  HashOracle.treeHash_ofSkeletons (part (List.mem_cons_self ..) h)

/-- The registration can take place. -/
structure Registration.Possible (x : Registration) : Prop where
  hashes : x.skeletons ∈ parts
  slots : ∀ v ∈ x.slots, v ∈ HistoryExample.slots
  right_eq : x.left.neighborsRight = x.right.handleHash
  left_eq : x.right.neighborsLeft = x.left.handleHash
  above_left : x.left.handleHash < handleHash x.handle
  below_right : handleHash x.handle < x.right.handleHash

theorem first_possible : first.Possible where
  hashes := by simp [parts]
  slots := by simp [Registration.slots, slots, first]
  right_eq := rfl
  left_eq := rfl
  above_left := by decide +kernel
  below_right := by decide +kernel

theorem second_possible : second.Possible where
  hashes := by simp [parts]
  slots := by simp [Registration.slots, slots, second]
  right_eq := rfl
  left_eq := rfl
  above_left := by decide +kernel
  below_right := by decide +kernel

theorem other_possible : other.Possible where
  hashes := by simp [parts]
  slots := by
    have hleft : other.newLeft = second.newLeft := rfl
    have hright : other.newRight = second.newRight := rfl
    simp only [Registration.slots, hleft, hright]
    simp [slots, other]
  right_eq := rfl
  left_eq := rfl
  above_left := second_possible.above_left
  below_right := second_possible.below_right

namespace Registration

variable {x : Registration}

theorem left_toClvm (hx : x.Possible) : x.left.toClvm = x.solution.leftSlot
    (.ofInt x.left.counter) (.atom x.right.handleHash) := by
  rw [← hx.right_eq]
  rfl

theorem right_toClvm (hx : x.Possible) : x.right.toClvm = x.solution.rightSlot
    (.ofInt x.right.counter) (.atom x.left.handleHash) := by
  rw [← hx.left_eq]
  rfl

theorem newSlot_toClvm : x.newSlot.toClvm = x.solution.newSlot
    (.ofInt (intFromBytes (intToBytes 500) + intFromBytes (intToBytes 366))) := by
  rw [intFromBytes_intToBytes, intFromBytes_intToBytes]
  rfl

theorem newLeft_toClvm : x.newLeft.toClvm = x.solution.leftSlot
    (.ofInt (intFromBytes (intToBytes x.left.counter) + 1)) (.atom (handleHash x.handle)) := by
  rw [intFromBytes_intToBytes, ← Nat.cast_succ]
  rfl

theorem newRight_toClvm : x.newRight.toClvm = x.solution.rightSlot
    (.ofInt (intFromBytes (intToBytes x.right.counter) + 1)) (.atom (handleHash x.handle)) := by
  rw [intFromBytes_intToBytes, ← Nat.cast_succ]
  rfl

/-- What the registration computes. -/
def run (hx : x.Possible) : RegisterRun machine constants (XchandlesStateTruth.mk .nil state).toClvm
    x.solution.toClvm where
  t := ⟨.nil, state⟩
  s := x.solution
  truth_eq := rfl
  solution_eq := rfl
  priced := ⟨.ofInt 7, .ofInt 366⟩
  runs_pricing := Xchandles.runPricing_quoted ..
  handleHash := handleHash x.handle
  left := x.left.handleHash
  right := x.right.handleHash
  catMakerHash := makerHash
  pricingHash := pricingHash
  handleHash_eq := rfl
  left_eq := rfl
  right_eq := rfl
  hashes_handle := HashOracle.treeHashAtom_ofSkeletons
    (part hx.hashes (List.mem_append_left _ (List.mem_append_left _ (List.mem_cons_self ..))))
  fresh := rfl
  above_left := hx.above_left
  below_right := hx.below_right
  catMaker_eq := rfl
  hashes_catMaker := treeHash_program (v := makerProgram) (by simp [programs])
  pricing_eq := rfl
  hashes_pricing := treeHash_program (v := pricingProgram) (by simp [programs])
  inner := x.inner
  hashes_inner := Xchandles.precommitInnerPuzzleHash_ofSkeletons (r := bytes32 21)
    fun _ ht => part hx.hashes
      (List.mem_append_left _ (List.mem_append_left _ (List.mem_cons_of_mem _ ht)))
  precommitCoin := defaultCatHash (bytes32 30) (bytes32 31) x.inner
  runs_catMaker := runCatMaker_default 6 (defaultCatMaker_ofSkeletons fun _ ht =>
    part hx.hashes (List.mem_append_left _ (List.mem_append_right _ ht)))
  owner := x.ownerHash
  hashes_owner := HashOracle.singletonPuzzleHash_ofSkeletons (m := bytes32 1) (l := bytes32 2)
    (p := bytes32 23) fun _ ht => part hx.hashes (List.mem_append_right _ ht)
  resolved := x.ownerHash
  hashes_resolved := HashOracle.singletonPuzzleHash_ofSkeletons (m := bytes32 1) (l := bytes32 2)
    (p := bytes32 23) fun _ ht => part hx.hashes (List.mem_append_right _ ht)
  expiration := .ofInt (intFromBytes (intToBytes 500) + intFromBytes (intToBytes 366))
  expiration_eq := Clvm.add_atom _ _
  leftCounter := intToBytes x.left.counter
  leftCounter_eq := rfl
  rightCounter := intToBytes x.right.counter
  rightCounter_eq := rfl
  spentLeft := coin x.left
  spends_left := by
    have hslot := slotCoin_eq (hx.slots x.left (by simp [slots]))
    rwa [left_toClvm hx] at hslot
  spentRight := coin x.right
  spends_right := by
    have hslot := slotCoin_eq (hx.slots x.right (by simp [slots]))
    rwa [right_toClvm hx] at hslot
  createdNew := coin x.newSlot
  creates_new := by
    rw [← newSlot_toClvm]
    exact slotCoin_eq (hx.slots x.newSlot (by simp [slots]))
  createdLeft := coin x.newLeft
  creates_left := by
    rw [← newLeft_toClvm]
    exact slotCoin_eq (hx.slots x.newLeft (by simp [slots]))
  createdRight := coin x.newRight
  creates_right := by
    rw [← newRight_toClvm]
    exact slotCoin_eq (hx.slots x.newRight (by simp [slots]))

/-- The footprint of the registration is what its log says. -/
theorem reports (hx : x.Possible) : x.log.Reports .register (run hx).footprint where
  action_eq := rfl
  spent_eq := rfl
  created_perm := (List.Perm.swap _ _ _).cons _
  moves_eq := by
    show [(x.solution.leftSlot _ _, x.solution.leftSlot _ _),
      (x.solution.rightSlot _ _, x.solution.rightSlot _ _)]
        = [(x.left.toClvm, x.newLeft.toClvm), (x.right.toClvm, x.newRight.toClvm)]
    rw [left_toClvm hx, right_toClvm hx, newLeft_toClvm, newRight_toClvm]
    rfl
  inserted_eq := by
    show [x.solution.newSlot _] = [x.newSlot.toClvm]
    rw [newSlot_toClvm]
    rfl
  opened_eq := rfl
  closed_eq := rfl

/-- A block with the registration, and what is reported of it. -/
def block (x : Registration) : Block Action := ⟨⟨100, 600, []⟩, [[⟨.register, x.solution.toClvm⟩]]⟩

def reported (x : Registration) : ReportedBlock := ⟨100, [[x.log]]⟩

/-- The live slots before the registration, and those after it. -/
def before (x : Registration) (others : Multiset Bytes) : Registry :=
  ⟨state.toClvm, coin x.left ::ₘ coin x.right ::ₘ others⟩

def after (x : Registration) (others : Multiset Bytes) : Registry :=
  ⟨state.toClvm, coin x.newSlot ::ₘ coin x.newRight ::ₘ coin x.newLeft ::ₘ others⟩

/-- **The registration can be reported** of a registry with its two neighbours. -/
theorem reported_next (hx : x.Possible) {r₀ : Registry} {past : List ReportedBlock}
    {others : Multiset Bytes} (h : Reported machine constants r₀ past (x.before others)) :
    Reported machine constants r₀ (past ++ [x.reported]) (x.after others) := by
  have hspends : slotSpends (run hx).conditions = coin x.left ::ₘ coin x.right ::ₘ 0 :=
    (run hx).slotSpends_conditions
  have hcreates : zeroCoins (run hx).conditions
      = coin x.newSlot ::ₘ coin x.newLeft ::ₘ coin x.newRight ::ₘ 0 :=
    (run hx).zeroCoins_conditions
  have hlive : slotSpends (run hx).conditions ≤ (x.before others).live := by
    rw [hspends]
    exact Multiset.cons_le_cons _ (Multiset.cons_le_cons _ (Multiset.zero_le _))
  have hholds : ∀ c ∈ (run hx).conditions, c.Holds ⟨100, 600, []⟩ := by
    have htime : (Condition.assertSecondsAbsolute (.ofInt 500)).Holds ⟨100, 600, []⟩ :=
      (Condition.holds_assertSecondsAbsolute (n := 500) (by decide)).2 (by decide : 500 ≤ 600)
    exact (run hx).holds htime
  have hafter : x.after others = ⟨state.toClvm, (x.before others).live
      - slotSpends (run hx).conditions + zeroCoins (run hx).conditions⟩ := by
    have hrest : (x.before others).live - slotSpends (run hx).conditions = others := by
      rw [hspends]
      show (coin x.left ::ₘ coin x.right ::ₘ others) - (coin x.left ::ₘ coin x.right ::ₘ 0) = others
      rw [← Multiset.singleton_add, ← Multiset.singleton_add, ← add_assoc,
        ← Multiset.singleton_add (coin x.left), ← Multiset.singleton_add (coin x.right), add_zero,
        add_tsub_cancel_left]
    rw [hrest, hcreates, add_comm, Multiset.cons_add, Multiset.cons_add, Multiset.cons_add, zero_add]
    show Registry.mk _ (coin x.newSlot ::ₘ coin x.newRight ::ₘ coin x.newLeft ::ₘ others) = _
    rw [Multiset.cons_swap (coin x.newRight)]
  rw [hafter]
  have hrun : Action.run machine constants .register (.pair .nil (x.before others).state)
      x.solution.toClvm
        = some ((XchandlesStateTruth.mk .nil state).toClvm, (run hx).conditions) :=
    Xchandles.register_eq_some.2 ⟨run hx, rfl⟩
  have hstep : BlockStep (Action.run machine constants) (x.before others) x.block
      [⟨⟨.register, x.solution.toClvm⟩, .pair .nil (x.before others).state,
        (XchandlesStateTruth.mk .nil state).toClvm, (run hx).conditions⟩]
      ⟨state.toClvm, (x.before others).live - slotSpends (run hx).conditions
        + zeroCoins (run hx).conditions⟩ :=
    blockStep_singleton hrun rfl hlive hholds
  exact h.next hstep rfl rfl (.cons ⟨_, .register (run hx), reports hx⟩ .nil)

end Registration

/-! ### The purchase -/

theorem maker_mem : Skeleton.ofClvm makerProgram ∈ programs := by simp [programs]

theorem pricing_mem : Skeleton.ofClvm pricingProgram ∈ programs := by simp [programs]

theorem purchase_hashed : Xchandles.precommitSkeletons constants (bytes32 21)
    (purchase.precommitValue state) ∈ parts := by simp [parts]

theorem purchase_makes : runCatMaker machine makerProgram purchaseInner .nil
    = some (defaultCatHash (bytes32 30) (bytes32 31) purchaseInner) := by
  have hpart : defaultCatMakerSkeletons (bytes32 30) (bytes32 31) purchaseInner ∈ parts := by
    simp [parts]
  exact runCatMaker_default 6 (defaultCatMaker_ofSkeletons (part hpart))

theorem slots_other : other.newSlot ∈ slots := by simp [slots]

theorem slots_bought : bought ∈ slots := by simp [slots]

theorem purchase_approves (precommitCoin : Bytes) : Xchandles.expireResolvedApproval machine.hash
    constants purchase.other.newRest purchase.newResolvedInnerPuzzleHash precommitCoin
      = some [] := by
  refine bind_intro (Clvm.eq_atom _) ?_
  rfl

theorem purchase_expires : (Clvm.ofInt 366).add (.ofInt 900) = some (.ofInt 1266) :=
  Clvm.add_ofInt 366 900

/-- What the purchase computes. -/
def purchaseRun : ExpireRun machine constants (XchandlesStateTruth.mk .nil state).toClvm
    purchase.toClvm where
  t := ⟨.nil, state⟩
  s := purchase
  truth_eq := rfl
  solution_eq := rfl
  catMakerHash := makerHash
  pricingHash := pricingHash
  hashes_catMaker := treeHash_program (v := makerProgram) maker_mem
  catMaker_eq := rfl
  hashes_pricing := treeHash_program (v := pricingProgram) pricing_mem
  pricing_eq := rfl
  handleHash := handleHash other.handle
  hashes_handle := (Registration.run other_possible).hashes_handle
  priced := ⟨.ofInt 7, .ofInt 366⟩
  runs_pricing := Xchandles.runPricing_quoted ..
  inner := purchaseInner
  hashes_inner := Xchandles.precommitInnerPuzzleHash_ofSkeletons (r := bytes32 21)
    (part purchase_hashed)
  precommitCoin := defaultCatHash (bytes32 30) (bytes32 31) purchaseInner
  runs_catMaker := purchase_makes
  owner := first.ownerHash
  hashes_owner := (Registration.run first_possible).hashes_owner
  counter := []
  counter_eq := rfl
  spent := coin other.newSlot
  spends := slotCoin_eq (v := other.newSlot) slots_other
  expiration := .ofInt 1266
  expiration_eq := purchase_expires
  created := coin bought
  creates := slotCoin_eq (v := bought) slots_bought
  resolvedApproval := []
  approves := purchase_approves _

/-- The footprint of the purchase is what its log says. -/
theorem reports_purchase : purchaseLog.Reports .expire purchaseRun.footprint where
  action_eq := rfl
  spent_eq := rfl
  created_perm := .refl _
  moves_eq := rfl
  inserted_eq := rfl
  opened_eq := rfl
  closed_eq := rfl

/-- A block with the purchase, and what is reported of it. -/
def purchaseBlock : Block Action := ⟨⟨200, 1000, []⟩, [[⟨.expire, purchase.toClvm⟩]]⟩

def purchaseReported : ReportedBlock := ⟨200, [[purchaseLog]]⟩

/-- The live slots after the purchase. -/
def afterPurchase (others : Multiset Bytes) : Registry :=
  ⟨state.toClvm, coin bought ::ₘ coin other.newRight ::ₘ coin other.newLeft ::ₘ others⟩

theorem purchase_holds : ∀ c ∈ purchaseRun.conditions, c.Holds purchaseBlock.info := by
  have hbuy : (Condition.assertSecondsAbsolute (.ofInt 900)).Holds purchaseBlock.info :=
    (Condition.holds_assertSecondsAbsolute (n := 900) (by decide)).2 (by decide : 900 ≤ 1000)
  have hpast : (Condition.assertSecondsAbsolute (.ofInt 866)).Holds purchaseBlock.info :=
    (Condition.holds_assertSecondsAbsolute (n := 866) (by decide)).2 (by decide : 866 ≤ 1000)
  exact purchaseRun.holds hbuy hpast

/-- **The purchase can be reported** after the registration of the handle. -/
theorem purchase_next {r₀ : Registry} {past : List ReportedBlock} {others : Multiset Bytes}
    (h : Reported machine constants r₀ past (other.after others)) :
    Reported machine constants r₀ (past ++ [purchaseReported]) (afterPurchase others) := by
  have hspends : slotSpends purchaseRun.conditions = {coin other.newSlot} :=
    purchaseRun.slotSpends_conditions
  have hcreates : zeroCoins purchaseRun.conditions = {coin bought} :=
    purchaseRun.zeroCoins_conditions
  have hbefore : (other.after others).live = coin other.newSlot
      ::ₘ (coin other.newRight ::ₘ coin other.newLeft ::ₘ others) := rfl
  have hlive : slotSpends purchaseRun.conditions ≤ (other.after others).live := by
    rw [hspends, hbefore, Multiset.singleton_le]
    exact Multiset.mem_cons_self ..
  have hafter : afterPurchase others = ⟨state.toClvm, (other.after others).live
      - slotSpends purchaseRun.conditions + zeroCoins purchaseRun.conditions⟩ := by
    rw [hspends, hcreates, hbefore, ← Multiset.singleton_add, add_tsub_cancel_left, add_comm,
      Multiset.singleton_add]
    rfl
  rw [hafter]
  have hrun : Action.run machine constants .expire (.pair .nil (other.after others).state)
      purchase.toClvm = some ((XchandlesStateTruth.mk .nil state).toClvm, purchaseRun.conditions) :=
    Xchandles.expire_eq_some.2 ⟨purchaseRun, rfl⟩
  have hstep : BlockStep (Action.run machine constants) (other.after others) purchaseBlock
      [⟨⟨.expire, purchase.toClvm⟩, .pair .nil (other.after others).state,
        (XchandlesStateTruth.mk .nil state).toClvm, purchaseRun.conditions⟩]
      ⟨state.toClvm, (other.after others).live - slotSpends purchaseRun.conditions
        + zeroCoins purchaseRun.conditions⟩ :=
    blockStep_singleton hrun rfl hlive purchase_holds
  exact h.next hstep rfl rfl (.cons ⟨_, .expire purchaseRun, reports_purchase⟩ .nil)

/-! ### The histories -/

/-- The registry with the two sentinels. -/
theorem launched : Launched machine constants Xchandles.Example.sentinels low high
    (first.before 0) where
  collisionFree := collisionFree
  kinds := by decide
  starts := Xchandles.starts_of_coins (slotCoin_eq (v := low) (by simp [slots]))
    (slotCoin_eq (v := high) (by simp [slots]))
  low_eq := rfl
  high_eq := rfl

/-- The slots after the first registration, after both, and after the purchase. -/
def liveFirst : Multiset HandleSlotValue := [first.newLeft, first.newRight, first.newSlot]

def liveSecond : Multiset HandleSlotValue :=
  [first.newLeft, second.newLeft, second.newRight, second.newSlot]

def liveBought : Multiset HandleSlotValue :=
  [first.newLeft, other.newLeft, other.newRight, bought]

theorem liveAfter_first : LiveAfter {low, high} [first.log] liveFirst := by
  unfold LiveAfter Settles
  simp only [List.map_cons, List.map_nil, Effect.consumed_total_cons, Effect.created_total_cons,
    Effect.total_nil, Effect.none, add_zero]
  exact add_comm ..

/-- A registration next to the first handle. -/
theorem liveAfter_next {x : Registration} (hleft : x.left = first.newSlot)
    (hright : x.right = first.newRight) : LiveAfter {low, high} [first.log, x.log]
      [first.newLeft, x.newLeft, x.newRight, x.newSlot] := by
  suffices hnext : LiveAfter liveFirst [x.log]
      [first.newLeft, x.newLeft, x.newRight, x.newSlot] from liveAfter_first.append hnext
  unfold LiveAfter Settles
  simp only [List.map_cons, List.map_nil, Effect.consumed_total_cons, Effect.created_total_cons,
    Effect.total_nil, Effect.none, add_zero]
  refine Multiset.coe_eq_coe.2 ?_
  show List.Perm [first.newLeft, x.newLeft, x.newRight, x.newSlot, x.left, x.right]
    [first.newLeft, first.newRight, first.newSlot, x.newLeft, x.newRight, x.newSlot]
  rw [hleft, hright]
  refine List.Perm.cons _ ?_
  exact (@List.perm_append_comm _ [_, _, _] [_, _]).trans (.swap ..)

theorem liveAfter_second : LiveAfter {low, high} [first.log, second.log] liveSecond :=
  liveAfter_next rfl rfl

theorem liveAfter_bought : LiveAfter {low, high} [first.log, other.log, purchaseLog] liveBought := by
  have hother : LiveAfter {low, high} [first.log, other.log]
      [first.newLeft, other.newLeft, other.newRight, other.newSlot] := liveAfter_next rfl rfl
  suffices hbought : LiveAfter [first.newLeft, other.newLeft, other.newRight, other.newSlot]
      [purchaseLog] liveBought from hother.append hbought
  unfold LiveAfter Settles
  simp only [List.map_cons, List.map_nil, Effect.consumed_total_cons, Effect.created_total_cons,
    Effect.total_nil, Effect.none, add_zero]
  refine Multiset.coe_eq_coe.2 ?_
  show List.Perm [first.newLeft, other.newLeft, other.newRight, bought, other.newSlot]
    [first.newLeft, other.newLeft, other.newRight, other.newSlot, bought]
  exact (((List.Perm.swap _ _ []).cons _).cons _).cons _

/-- The two registrations, one after the other. -/
theorem reported_first :
    Reported machine constants (first.before 0) [first.reported] (first.after 0) :=
  Registration.reported_next first_possible .start

theorem reported_second : Reported machine constants (first.before 0)
    [first.reported, second.reported] (second.after {coin first.newLeft}) :=
  Registration.reported_next second_possible reported_first

/-- A registration for another owner, and the purchase. -/
theorem reported_bought : Reported machine constants (first.before 0)
    [first.reported, other.reported, purchaseReported] (afterPurchase {coin first.newLeft}) :=
  purchase_next (Registration.reported_next other_possible reported_first)

end HistoryExample

end SlotMachine.Listener
