import SlotMachine.Sync.Handles

/-!
# After a sync of an XCHandles registry

The sync is run again and again, while the chain grows, and may be interrupted.
When it completes, the database mirrors the chain exactly if the slot of every handle
that was created last is not spent.

* `Reaches.leads` — a run goes on.
* `BumpExample` — two announcements in one spend, of which the later one creates the
  slot that the earlier one spends.
* `xchandles_mirror_iff` — **when the database mirrors the chain**.
-/

namespace SlotMachine.Sync

open Journal Listener Settlement Rewriting SortedList

/-! ## Runs -/

section

variable {Sp V L : Type} {P : Protocol Sp V L} {Valid : Chain V L → Prop} {c : Chain V L}
variable {node : Node Sp}

/-- A run goes on, asking the same node. -/
theorem Reaches.leads {s s' : Db V × Stage V L} (h : Reaches P Valid c s) (hc : Valid c)
    (hnode : Serves P node c) (hleads : Leads P node s s') : Reaches P Valid c s' := by
  obtain ⟨n, rfl⟩ := hleads
  induction n with
  | zero => exact h
  | succ n ih =>
      rw [Function.iterate_succ_apply']
      exact ih.step hc (.refl c) hnode

end

/-! ## The database and the chain -/

section

variable {M : Machine} {K : Xchandles.Constants} {S : Xchandles.Sentinels}
variable {low high : HandleSlotValue} {r₀ : Registry} {launcherId : Bytes} {nonce : ℕ}
variable {c : Chain HandleSlotValue ActionLog} {db : Db HandleSlotValue} {Sp : Type}

/-- If the tables have what there is after all spends, they mirror the chain exactly if
the slots are current. -/
theorem HandleHistory.exists_mirrors_iff (h0 : Launched M K S low high r₀)
    (hc : HandleHistory M K low high r₀ launcherId nonce c)
    (hbase : HandlesBase launcherId nonce c db) (hat : HandlesAt launcherId nonce c c.length db) :
    ∃ live, OnChain M K r₀ low high c live ∧
      (Mirrors launcherId nonce low high live db ↔ Current low high c live) := by
  obtain ⟨live, hlive, hjournal, l, hl, hlinked⟩ := hc.exists_live h0
  exact ⟨live, hlive, hat.mirrors_iff (hc.handleChain h0) hbase hjournal hl hlinked⟩

/-- The sync keeps what the tables have of a registry history. -/
theorem historyKeeper (D : XchandlesDriver Sp) (launcherId : Bytes)
    (h0 : Launched M K S low high r₀) : Keeper (syncXchandlesDetailed D launcherId)
      (HandleHistory M K low high r₀ launcherId D.handleNonce)
      (HandlesBase launcherId D.handleNonce) (HandlesAt launcherId D.handleNonce) :=
  (handleKeeper D launcherId).mono fun hc => hc.handleChain h0

end

/-! ## Announcements, as an example -/

namespace BumpExample

open Xchandles (Action OracleRun spendCoin createHandleCoin)
open Xchandles.Example (bytes32 constants)

/-- The low sentinel, with any counter. -/
def low (counter : ℕ) : HandleSlotValue :=
  ⟨counter, bytes32 0, bytes32 0, bytes32 255, 1000, bytes32 9, bytes32 9⟩

def high : HandleSlotValue := ⟨0, bytes32 255, bytes32 0, bytes32 255, 1000, bytes32 9, bytes32 9⟩

/-- The slot in the place of one that is announced. -/
def next (v : HandleSlotValue) : HandleSlotValue := { v with counter := v.counter + 1 }

def slots : List HandleSlotValue := [low 0, low 1, low 2, high]

def skeletons : List Skeleton :=
  slots.flatMap fun v => HashOracle.slotSkeletons (bytes32 4) v.toClvm

def machine : Machine := .clvm (.ofSkeletons skeletons) (fun _ _ => none) 20

theorem collisionFree : machine.hash.CollisionFree :=
  HashOracle.ofSkeletons_collisionFree (by decide +kernel)

/-- The puzzle hash of a slot. -/
@[irreducible] def coin (v : HandleSlotValue) : Bytes := HashOracle.slotHash (bytes32 4) v.toClvm

theorem slotSkeletons_subset {v : HandleSlotValue} (h : v ∈ slots) :
    HashOracle.slotSkeletons (bytes32 4) v.toClvm ⊆ skeletons :=
  fun _ ht => List.mem_flatMap.2 ⟨v, h, ht⟩

theorem slotCoin_eq {v : HandleSlotValue} (h : v ∈ slots) :
    machine.hash.slotCoin constants.handleSlot1stCurryHash v.toClvm = some (coin v) := by
  unfold coin
  exact HashOracle.slotCoin_ofSkeletons (slotSkeletons_subset h)

/-- The registry with the two sentinels, and any live slots. -/
def registryOf (live : Multiset Bytes) : Registry := ⟨Xchandles.Example.state, live⟩

theorem launched : Launched machine constants Xchandles.Example.sentinels (low 0) high
    (registryOf {coin (low 0), coin high}) where
  collisionFree := collisionFree
  kinds := by decide
  starts := Xchandles.starts_of_coins (slotCoin_eq (v := low 0) (by simp [slots]))
    (slotCoin_eq (v := high) (by simp [slots]))
  low_eq := rfl
  high_eq := rfl

/-- A slot can be announced. -/
structure Possible (v : HandleSlotValue) : Prop where
  mem : v ∈ slots
  next_mem : next v ∈ slots

theorem next_toClvm (v : HandleSlotValue) : (next v).toClvm = Xchandles.handleSlotValue
    (.ofInt (intFromBytes (intToBytes v.counter) + 1)) (.atom v.handleHash)
    (.pair (.atom v.neighborsLeft) (.atom v.neighborsRight)) (.ofInt v.expiration)
    (.pair (.atom v.ownerLauncherId) (.atom v.resolvedLauncherId)) := by
  rw [intFromBytes_intToBytes, ← Nat.cast_succ]
  rfl

/-- What the announcement computes. -/
def run {v : HandleSlotValue} (hv : Possible v) : OracleRun machine constants v.toClvm where
  counter := intToBytes v.counter
  ab := .pair (.pair (.atom v.handleHash) (.pair (.atom v.neighborsLeft) (.atom v.neighborsRight)))
    (.pair (.ofInt v.expiration) (.pair (.atom v.ownerLauncherId) (.atom v.resolvedLauncherId)))
  solution_eq := rfl
  spent := coin v
  spends := slotCoin_eq hv.mem
  created := coin (next v)
  creates := by
    have hslot := slotCoin_eq hv.next_mem
    rwa [next_toClvm] at hslot
  announcement := (Skeleton.ofClvm v.toClvm).hash
  hashes := HashOracle.treeHash_ofSkeletons
    (slotSkeletons_subset hv.mem (by simp [HashOracle.slotSkeletons]))

def log (v : HandleSlotValue) : ActionLog := .oracle v (next v)

theorem reports {v : HandleSlotValue} (hv : Possible v) :
    (log v).Reports .oracle (run hv).footprint where
  action_eq := rfl
  spent_eq := rfl
  created_perm := .refl _
  moves_eq := by
    show [((run hv).before, (run hv).after)] = [(v.toClvm, (next v).toClvm)]
    rw [next_toClvm]
    rfl
  inserted_eq := rfl
  opened_eq := rfl
  closed_eq := rfl

/-- The announcement of a slot, as a call and as a step. -/
def call (v : HandleSlotValue) : Call Action := ⟨.oracle, v.toClvm⟩

def step (v : HandleSlotValue) : Step Action :=
  ⟨call v, .pair .nil Xchandles.Example.state, .pair .nil Xchandles.Example.state,
    [spendCoin (coin v), createHandleCoin constants (coin (next v)),
      .createPuzzleAnnouncement (.tagged 'o' (Skeleton.ofClvm v.toClvm).hash)]⟩

theorem runActions_eq {vs : List HandleSlotValue} (hvs : ∀ v ∈ vs, Possible v) :
    runActions (Action.run machine constants) (.pair .nil Xchandles.Example.state) (vs.map call)
      = some (.pair .nil Xchandles.Example.state, vs.map step) := by
  induction vs with
  | nil => rfl
  | cons v vs ih =>
      have hrest := ih fun w hw => hvs w (List.mem_cons_of_mem _ hw)
      have hrun : Action.run machine constants .oracle (.pair .nil Xchandles.Example.state)
          v.toClvm = some (.pair .nil Xchandles.Example.state, (step v).conditions) :=
        Xchandles.oracle_eq_some.2 ⟨run (hvs v List.mem_cons_self), rfl⟩
      rw [List.map_cons, runActions]
      exact bind_intro hrun (bind_intro hrest rfl)

/-- What the announcements do to the live slots. -/
def effects (vs : List HandleSlotValue) : List (Effect Bytes) :=
  vs.map fun v => ⟨{coin v}, {coin (next v)}⟩

theorem step_effect (v : HandleSlotValue) : (step v).effect = ⟨{coin v}, {coin (next v)}⟩ := by
  have hspends : slotSpends (step v).conditions = {coin v} := by
    rw [step, spendCoin, slotSpends_spend]
    rfl
  have hcreates : zeroCoins (step v).conditions = {coin (next v)} := rfl
  rw [Step.effect, hspends, hcreates]

/-- **Announcements in one spend**, in any order in which they settle. -/
theorem reported (height : ℕ) {vs : List HandleSlotValue} (hne : vs ≠ [])
    (hvs : ∀ v ∈ vs, Possible v) {live live' : Multiset Bytes}
    (hsettles : Settles live (Effect.total (effects vs)) live') :
    Reported machine constants (registryOf live) [⟨height, [vs.map log]⟩] (registryOf live') := by
  have hspend : SlotMachine.spend (Action.run machine constants) Xchandles.Example.state
      (vs.map call) = some (Xchandles.Example.state, vs.map step) := by
    unfold SlotMachine.spend
    rw [assertThat, if_pos (by simpa using hne)]
    exact bind_intro rfl (bind_intro (runActions_eq hvs) rfl)
  have hstep : BlockStep (Action.run machine constants) (registryOf live)
      ⟨⟨height, 500, []⟩, [vs.map call]⟩ (vs.map step) (registryOf live') := by
    refine ⟨?_, ?_, ?_⟩
    · show SlotMachine.spends _ Xchandles.Example.state [vs.map call] = _
      rw [SlotMachine.spends]
      refine bind_intro hspend (bind_intro rfl ?_)
      show some (Xchandles.Example.state, vs.map step ++ []) = _
      rw [List.append_nil]
      rfl
    · have heffects : (vs.map step).map Step.effect = effects vs := by
        rw [List.map_map]
        exact List.map_congr_left fun v _ => step_effect v
      rw [heffects]
      exact hsettles
    · intro s hs c hc
      obtain ⟨v, -, rfl⟩ := List.mem_map.1 hs
      revert c
      simp [step, Condition.Holds, spendCoin, createHandleCoin]
  have hstart : Reported machine constants (registryOf live) [] (registryOf live) := .start
  refine hstart.next hstep rfl ?_ ?_
  · simp
  · simp only [ReportedBlock.logs, List.flatten_cons, List.flatten_nil, List.append_nil]
    rw [List.forall₂_map_left_iff, List.forall₂_map_right_iff, List.forall₂_same]
    exact fun v hv => ⟨_, .oracle (run (hvs v hv)), reports (hvs v hv)⟩

/-! ### The chain -/

/-- What the driver makes of a spend; the launcher has its own. -/
abbrev ParsedSpend : Type := Option (PendingSpend HandleSlotValue ActionLog)

def launcherId : Bytes := bytes32 60

/-- The registry coin, and the one after it. -/
def first : RegistryCoin := ⟨⟨bytes32 61, launcherId, 1⟩, bytes32 70, ⟨launcherId, .nil⟩⟩

def second : RegistryCoin := ⟨⟨bytes32 62, bytes32 61, 1⟩, bytes32 70, ⟨launcherId, .nil⟩⟩

def sentinel (v : HandleSlotValue) : Slot HandleSlotValue :=
  ⟨launcherId, 1, v, handleTreeHash v, ⟨bytes32 59, bytes32 71, 1⟩⟩

/-- A spend with the announcements of some slots. -/
def pending (vs : List HandleSlotValue) : PendingSpend HandleSlotValue ActionLog :=
  ⟨first, vs.map next, vs, vs.map log, second⟩

/-- The registry has not been spent, or once, at some height. -/
def chain (spend : Option (ℕ × List HandleSlotValue)) : Chain HandleSlotValue ActionLog :=
  ⟨first, [sentinel (low 0), sentinel high], spend.toList.map fun x => ⟨x.1, pending x.2⟩⟩

def driver : XchandlesDriver ParsedSpend where
  handleNonce := 1
  fromLauncherSolution _ s :=
    .ok (if s.isNone then some (first, sentinel (low 0), sentinel high) else none)
  fromParentSpend s _ := .ok (s.map PendingSpend.child)
  fromSpend s _ := .ok s
  fromMempoolItem s _ := .ok (s.map PendingSpend.child)

/-- A node that knows the chain. -/
def node (spend : Option (ℕ × List HandleSlotValue)) : Node ParsedSpend where
  coinRecord coinId :=
    if coinId = launcherId then some ⟨⟨launcherId, bytes32 59, 1⟩, 90, true, 90⟩
    else if coinId = first.coin.coinId then
      some ⟨first.coin, 90, spend.isSome, (spend.map Prod.fst).getD 0⟩
    else if coinId = second.coin.coinId then spend.map fun x => ⟨second.coin, x.1, false, 0⟩
    else none
  puzzleAndSolution coinId height :=
    if coinId = launcherId ∧ height = 90 then some none
    else if coinId = first.coin.coinId ∧ spend.map Prod.fst = some height then
      spend.map fun x => some (pending x.2)
    else none
  mempoolItem _ := none

theorem serves {spend : Option (ℕ × List HandleSlotValue)} (h : ∀ x ∈ spend, 0 < x.1) :
    Serves (syncXchandlesDetailed driver launcherId) (node spend) (chain spend) where
  launch_eq := rfl
  spent := by
    cases spend with
    | none => exact fun n hn => absurd hn (Nat.not_lt_zero n)
    | some x =>
        intro n hn
        obtain rfl : n = 0 := Nat.lt_one_iff.1 hn
        have hspend : (node (some x)).puzzleAndSolution first.coin.coinId x.1
            = some (some (pending x.2)) := by
          have hlaunch : ¬ (first.coin.coinId = launcherId ∧ x.1 = 90) := fun h =>
            absurd h.1 (by decide)
          have hfirst : first.coin.coinId = first.coin.coinId ∧ some x.1 = some x.1 := ⟨rfl, rfl⟩
          unfold node
          dsimp only [Option.map_some]
          rw [if_neg hlaunch, if_pos hfirst]
        exact ⟨⟨first.coin, 90, true, x.1⟩, some (pending x.2), rfl, rfl, rfl, rfl, Nat.succ_pos _,
          h x rfl, hspend, rfl, rfl⟩
  tip := by
    cases spend with
    | none => exact ⟨⟨first.coin, 90, false, 0⟩, rfl, rfl, rfl, rfl, Nat.succ_pos _⟩
    | some x => exact ⟨⟨second.coin, x.1, false, 0⟩, rfl, rfl, rfl, rfl, h x rfl⟩
  mempool := nofun

theorem linked (spend : Option (ℕ × List HandleSlotValue)) : (chain spend).Linked launcherId where
  launcherId_eq := rfl
  registry_eq := by
    cases spend with
    | none => exact fun n hn => absurd hn (Nat.not_lt_zero n)
    | some vs =>
        intro n hn
        obtain rfl : n = 0 := Nat.lt_one_iff.1 hn
        rfl
  constants_eq := by
    cases spend with
    | none =>
        intro n hn
        obtain rfl : n = 0 := Nat.le_zero.1 hn
        rfl
    | some vs =>
        intro n hn
        obtain rfl | rfl : n = 0 ∨ n = 1 := Nat.le_one_iff_eq_zero_or_eq_one.1 hn <;> rfl
  parent_eq := by
    cases spend with
    | none => exact fun n hn => absurd hn (Nat.not_lt_zero n)
    | some vs =>
        intro n hn
        obtain rfl : n = 0 := Nat.lt_one_iff.1 hn
        rfl
  coinId_inj := by
    cases spend with
    | none =>
        intro m hm n hn _
        exact (Nat.le_zero.1 hm).trans (Nat.le_zero.1 hn).symm
    | some vs =>
        have hne : first.coin.coinId ≠ second.coin.coinId := by decide
        intro m hm n hn heq
        obtain rfl | rfl : m = 0 ∨ m = 1 := Nat.le_one_iff_eq_zero_or_eq_one.1 hm <;>
          obtain rfl | rfl : n = 0 ∨ n = 1 := Nat.le_one_iff_eq_zero_or_eq_one.1 hn
        · rfl
        · exact absurd heq hne
        · exact absurd heq.symm hne
        · rfl

theorem handleTreeHash_inj : ∀ v ∈ slots, ∀ w ∈ slots, handleTreeHash v = handleTreeHash w →
    v = w := by
  decide +kernel

/-- A history of the registry with at most one spend. -/
abbrev History (c : Chain HandleSlotValue ActionLog) : Prop :=
  HandleHistory machine constants (low 0) high (registryOf {coin (low 0), coin high}) launcherId
    driver.handleNonce c

theorem slots_eq (spend : Option (ℕ × List HandleSlotValue)) : ∀ s ∈ (chain spend).slots,
    s.launcherId = launcherId ∧ s.nonce = driver.handleNonce ∧
      s.valueHash = handleTreeHash s.value := by
  intro s hs
  obtain rfl | rfl : s = sentinel (low 0) ∨ s = sentinel high := by simpa [chain] using hs
  · exact ⟨rfl, rfl, rfl⟩
  · exact ⟨rfl, rfl, rfl⟩

/-- All slots that there have been. -/
theorem created_subset {spend : Option (ℕ × List HandleSlotValue)}
    (hvs : ∀ x ∈ spend, ∀ v ∈ x.2, Possible v) :
    created (chain spend).values (chain spend).entries ⊆ slots := by
  intro v hv
  have hmem : v ∈ [low 0, high] ∨ ∃ x ∈ spend, v ∈ x.2.map next := by
    cases spend with
    | none => exact Or.inl hv
    | some x =>
        have heq : created (chain (some x)).values (chain (some x)).entries
            = [low 0, high] ++ (x.2.map next ++ []) := rfl
        rw [heq, List.append_nil] at hv
        exact (List.mem_append.1 hv).imp id fun hv => ⟨x, rfl, hv⟩
  rcases hmem with hv | ⟨x, hspend, hv⟩
  · revert hv
    simp only [List.mem_cons, List.not_mem_nil, or_false, slots]
    rintro (rfl | rfl)
    · exact Or.inl rfl
    · exact Or.inr (Or.inr (Or.inr rfl))
  · obtain ⟨w, hw, rfl⟩ := List.mem_map.1 hv
    exact (hvs x hspend w hw).next_mem

theorem history_none : History (chain none) where
  linked := linked none
  values_eq := rfl
  slots_eq := slots_eq none
  created_eq := nofun
  spent_eq := nofun
  reported := ⟨[], _, .start, rfl⟩
  hash_inj := by
    have hsubset : created (chain none).values (chain none).entries ⊆ slots :=
      created_subset (by simp)
    exact fun v hv w hw => handleTreeHash_inj v (hsubset hv) w (hsubset hw)

theorem history_some (height : ℕ) {vs : List HandleSlotValue} (hne : vs ≠ [])
    (hvs : ∀ v ∈ vs, Possible v) {live : Multiset Bytes}
    (hsettles : Settles {coin (low 0), coin high} (Effect.total (effects vs)) live) :
    History (chain (some (height, vs))) where
  linked := linked _
  values_eq := rfl
  slots_eq := slots_eq _
  created_eq := by
    intro s hs
    obtain rfl := List.mem_singleton.1 hs
    show vs.map next = (vs.map log).flatMap _
    rw [List.flatMap_map]
    exact List.map_eq_flatMap
  spent_eq := by
    intro s hs
    obtain rfl := List.mem_singleton.1 hs
    show vs = (vs.map log).flatMap _
    rw [List.flatMap_map]
    exact (List.flatMap_singleton' ..).symm
  reported := ⟨_, _, reported height hne hvs hsettles, rfl⟩
  hash_inj := by
    have hsubset : created (chain (some (height, vs))).values (chain (some (height, vs))).entries
        ⊆ slots := by
      refine created_subset fun x hx => ?_
      obtain rfl := Option.some.inj hx
      exact hvs
    exact fun v hv w hw => handleTreeHash_inj v (hsubset hv) w (hsubset hw)

/-! ### Two announcements in the other order -/

/-- The slot that the first announcement needs is created by the second one. -/
def swapped : ℕ × List HandleSlotValue := (100, [low 1, low 0])

theorem possible_low {n : ℕ} (h : n < 2) : Possible (low n) := by
  obtain rfl | rfl : n = 0 ∨ n = 1 := by omega
  · exact ⟨by simp [slots], by simp [slots, next, low]⟩
  · exact ⟨by simp [slots], by simp [slots, next, low]⟩

theorem history_swapped : History (chain (some swapped)) := by
  have hsettles : Settles {coin (low 0), coin high} (Effect.total (effects swapped.2))
      {coin (low 2), coin high} := by
    have hperm : (effects swapped.2).Perm (effects [low 0, low 1]) := List.Perm.swap ..
    rw [Effect.total_perm hperm]
    exact (settles_replace (coin (low 0)) (coin (low 1)) {coin high}).append
      (settles_replace (coin (low 1)) (coin (low 2)) {coin high})
  refine history_some 100 (List.cons_ne_nil _ _) ?_ hsettles
  intro v hv
  obtain rfl | rfl : v = low 1 ∨ v = low 0 := by simpa [swapped] using hv
  · exact possible_low (by omega)
  · exact possible_low (by omega)

theorem serves_swapped : Serves (syncXchandlesDetailed driver launcherId) (node (some swapped))
    (chain (some swapped)) := by
  refine serves fun x hx => ?_
  rw [← Option.some.inj hx]
  exact Nat.succ_pos _

/-- Afterwards the low sentinel has been announced twice. -/
def live : Multiset HandleSlotValue := {low 2, high}

theorem liveAfter_swapped : LiveAfter {low 0, high} (chain (some swapped)).logs live := by
  have hlogs : (chain (some swapped)).logs.map ActionLog.effect
      = [⟨{low 1}, {low 2}⟩, ⟨{low 0}, {low 1}⟩] := rfl
  unfold LiveAfter
  rw [hlogs, Effect.total_perm (List.Perm.swap ..)]
  exact (settles_replace (low 0) (low 1) {high}).append (settles_replace (low 1) (low 2) {high})

/-- **The slot that was created last is spent.** -/
theorem not_current : ¬ Current (low 0) high (chain (some swapped)) live := by
  intro h
  have hmem : low 2 ∈ live := by simp [live]
  have hmem' : high ∈ live := by simp [live]
  obtain ⟨hcurrent, -⟩ := h.neighbors _ hmem _ hmem' rfl (bytes32 1) (by decide) (by decide)
  refine hcurrent (low 1) (by decide) ?_
  show low 1 ∈ [low 1, low 0]
  exact List.mem_cons_self ..

end BumpExample

/-! ## When the database mirrors the chain -/

section

variable {M : Machine} {K : Xchandles.Constants} {S : Xchandles.Sentinels}
variable {low high : HandleSlotValue} {r₀ : Registry} {c : Chain HandleSlotValue ActionLog}
variable {db : Db HandleSlotValue} {Sp : Type}

/-- **When the database mirrors the chain.**  After any runs, while the chain grew, a
sync that is done has followed a chain to its tip; the database mirrors it exactly if its
slots are current.  A sync that starts after any runs, and asks a node that answers, is
done after finitely many steps, and returns the tip. -/
theorem xchandles_mirror_iff (D : XchandlesDriver Sp) (launcherId : Bytes)
    (h0 : Launched M K S low high r₀) {stage : Stage HandleSlotValue ActionLog}
    (h : Reaches (syncXchandlesDetailed D launcherId)
      (HandleHistory M K low high r₀ launcherId D.handleNonce) c (db, stage)) :
    (∀ result, stage = .done (.ok result) →
      ∃ c₀ live, HandleHistory M K low high r₀ launcherId D.handleNonce c₀ ∧
        (syncXchandlesDetailed D launcherId).ReturnsTip c₀ c result ∧
        OnChain M K r₀ low high c₀ live ∧
        (Mirrors launcherId D.handleNonce low high live db ↔ Current low high c₀ live)) ∧
    ∀ node, Serves (syncXchandlesDetailed D launcherId) node c →
      ∃ db' walked result live,
        Leads (syncXchandlesDetailed D launcherId) node (db, .starting) (db', .done (.ok result)) ∧
        (syncXchandlesDetailed D launcherId).finish node c.tip walked = .ok result ∧
        OnChain M K r₀ low high c live ∧
        (Mirrors launcherId D.handleNonce low high live db' ↔ Current low high c live) := by
  have hkeeper := historyKeeper D launcherId h0
  obtain ⟨hc, hstored, hstage⟩ := h.inv hkeeper
  constructor
  · rintro result rfl
    obtain ⟨c₀, hc₀, htip, hbase, hat⟩ := hstage
    obtain ⟨live, hlive, hiff⟩ := hc₀.exists_mirrors_iff h0 hbase hat
    exact ⟨c₀, live, hc₀, htip, hlive, hiff⟩
  · intro node hnode
    obtain ⟨db', walked, result, hleads, hresult, hstored', hat⟩ :=
      hkeeper.completes hc hnode hstored
    obtain ⟨live, hlive, hiff⟩ := hc.exists_mirrors_iff h0 hstored'.base hat
    exact ⟨db', walked, result, live, hleads, hresult, hlive, hiff⟩

end

open BumpExample in
/-- The theorem at the example, from an empty database. -/
theorem xchandles_mirror_iff_swapped : ∃ db' walked result live,
    Leads (syncXchandlesDetailed driver launcherId) (node (some swapped)) (.empty, .starting)
      (db', .done (.ok result)) ∧
    (syncXchandlesDetailed driver launcherId).finish (node (some swapped))
      (chain (some swapped)).tip walked = .ok result ∧
    OnChain machine Xchandles.Example.constants (registryOf {coin (low 0), coin high}) (low 0) high
      (chain (some swapped)) live ∧
    (Mirrors launcherId driver.handleNonce (low 0) high live db' ↔
      Current (low 0) high (chain (some swapped)) live) :=
  (xchandles_mirror_iff driver launcherId launched (.init history_swapped)).2 _ serves_swapped

open BumpExample in
/-- **The database does not mirror the chain**: an announcement spends a slot that a later
announcement of the same spend creates, and the index has the spent one. -/
theorem xchandles_mirror_fails :
    ∃ (c : Chain HandleSlotValue ActionLog) (db : Db HandleSlotValue)
      (result : SyncResult ActionLog) (live : Multiset HandleSlotValue),
      Reaches (syncXchandlesDetailed driver launcherId) BumpExample.History c
        (db, .done (.ok result)) ∧
      result.registry = c.tip ∧
      OnChain machine Xchandles.Example.constants (registryOf {coin (low 0), coin high}) (low 0) high
        c live ∧
      ¬ Mirrors launcherId driver.handleNonce (low 0) high live db := by
  have hkeeper := historyKeeper driver launcherId launched
  obtain ⟨db, walked, result, hleads, hresult, hstored, hat⟩ :=
    hkeeper.completes history_swapped serves_swapped (hkeeper.stored_empty history_swapped)
  obtain ⟨live', hlive', hiff⟩ := history_swapped.exists_mirrors_iff launched hstored.base hat
  have hlive : live' = live := hlive'.1.unique liveAfter_swapped
  refine ⟨chain (some swapped), db, result, live', ?_, ?_, hlive', ?_⟩
  · exact (Reaches.init history_swapped).leads history_swapped serves_swapped hleads
  · exact (congrArg SyncResult.registry (Except.ok.inj hresult)).symm
  · rw [hiff, hlive]
    exact not_current

end SlotMachine.Sync
