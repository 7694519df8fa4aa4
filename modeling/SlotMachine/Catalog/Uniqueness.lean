import SlotMachine.Catalog.Registry

/-!
# CATalog: the list of TAILs

Starting from two sentinels that point at each other, the slots of the registry
are one sorted, doubly linked list after every block, and they have the keys of
the sentinels and of all TAILs registered so far.

* `Sentinels`, `Starts` — the initial registry.
* `ListInvariant`, `exists_invariant` — the invariant of a history: what the live
  slots weigh, their keys and their counters.
* `Listed` — the live slots as a list; the lemmas that find a slot in it.
* `tails_doublyLinked` — **the list**: one live slot for each registered TAIL, no
  TAIL registered twice, none lost.
-/

namespace SlotMachine.Catalog

open Settlement SortedList
open Rewriting (Rewrite keys_settles)

/-! ## The initial registry -/

/-- Two slots that point at each other, and nowhere else. -/
structure Sentinels where
  low : Bytes
  high : Bytes
  lowLeft : Bytes
  highRight : Bytes
  lowCounter : Bytes
  highCounter : Bytes
  lt : low < high
  lowLeft_le : ¬ lowLeft < low
  highRight_le : ¬ high < highRight

def Sentinels.lowSlot (S : Sentinels) : Clvm :=
  slotValue (.atom S.lowCounter) (.atom S.low) (.atom S.lowLeft) (.atom S.high)

def Sentinels.highSlot (S : Sentinels) : Clvm :=
  slotValue (.atom S.highCounter) (.atom S.high) (.atom S.low) (.atom S.highRight)

/-- A registry that has just been launched: its slots are the sentinels. -/
def Starts (H : HashOracle) (K : Constants) (S : Sentinels) (r : Registry) : Prop :=
  Behind H K {.slot S.lowSlot, .slot S.highSlot} r

/-- A registry with the two sentinels has just been launched. -/
theorem starts_of_coins {H : HashOracle} {K : Constants} {S : Sentinels} {state : Clvm}
    {low high : Bytes} (hlow : H.slotCoin K.slot1stCurryHash S.lowSlot = some low)
    (hhigh : H.slotCoin K.slot1stCurryHash S.highSlot = some high) :
    Starts H K S ⟨state, {low, high}⟩ := by
  have hitems := (Represents.cons (f := Item.coin H K) (a := .slot S.highSlot) hhigh
    (represents_zero _)).cons (a := .slot S.lowSlot) hlow
  exact hitems

/-- The places of some slots in the list. -/
def nodesOf (items : Multiset Item) : Multiset (Option (Node Clvm)) := (slotsOf items).map nodeOf

/-- The keys of some slots. -/
def keysOf (items : Multiset Item) : Multiset (Option Clvm) := (slotsOf items).map keyOf

/-- The TAILs registered in a history. -/
def allRegistered (events : List (Event Action)) : List Clvm :=
  events.flatMap fun e => registeredTails e.steps

/-! ## One block -/

section Block

variable {items items' : Multiset Item} {fs : List Footprint}

theorem map_nodeOf_effect (f : Footprint) :
    f.rewrite.effect.map (Multiset.mapAddMonoidHom nodeOf) = f.nodeEffect := by
  refine congrArg₂ Effect.mk ?_ ?_
  · simp [Footprint.rewrite, Rewrite.effect, Function.comp_def]
  · simp [Footprint.rewrite, Rewrite.effect, Function.comp_def]

theorem settles_nodes (h : Settles items (Effect.total (fs.map Footprint.effect)) items') :
    Settles (nodesOf items) (Effect.total (fs.map Footprint.nodeEffect)) (nodesOf items') := by
  have hmap := (settles_rewrites h).map (Multiset.mapAddMonoidHom nodeOf)
  rw [List.map_map, List.map_map] at hmap
  have hcongr : fs.map ((Effect.map (Multiset.mapAddMonoidHom nodeOf) ∘ Rewrite.effect)
      ∘ Footprint.rewrite) = fs.map Footprint.nodeEffect :=
    List.map_congr_left fun f _ => map_nodeOf_effect f
  rw [hcongr] at hmap
  exact hmap

end Block

/-! ## Histories -/

section History

variable {M : Machine} {K : Constants} {S : Sentinels} {r₀ r : Registry}
variable {events : List (Event Action)}

/-- A slot whose counter is an atom, as that of every slot an action creates. -/
def Counted (v : Clvm) : Prop := ∃ c w, v = .pair (.atom c) w

/-- The invariant of a history: the live slots weigh what the sentinels weigh,
their keys are those of the sentinels and of the registered TAILs, and they are
counted. -/
structure ListInvariant (S : Sentinels) (registered : List Clvm) (items : Multiset Item) : Prop where
  weighs : WeighsList atoms S.low S.high S.lowLeft S.highRight (nodesOf items)
  keys : keysOf items = some (.atom S.low) ::ₘ some (.atom S.high)
    ::ₘ ((registered.map some : List (Option Clvm)) : Multiset (Option Clvm))
  counted : ∀ v ∈ slotsOf items, Counted v

theorem listInvariant_sentinels (S : Sentinels) :
    ListInvariant S [] {.slot S.lowSlot, .slot S.highSlot} where
  weighs := weighsList_sentinels S.lt S.lowLeft_le S.highRight_le
  keys := rfl
  counted v hv := by
    have hslots : slotsOf {.slot S.lowSlot, .slot S.highSlot} = {S.lowSlot, S.highSlot} := rfl
    rw [hslots, Multiset.insert_eq_cons, Multiset.mem_cons, Multiset.mem_singleton] at hv
    rcases hv with rfl | rfl <;> exact ⟨_, _, rfl⟩

/-- One block keeps the invariant. -/
theorem ListInvariant.step {registered : List Clvm} {items items' : Multiset Item}
    (hinv : ListInvariant S registered items) {steps : List (Step Action)} {fs : List Footprint}
    (hfs : Footprints M K steps fs)
    (h : Settles items (Effect.total (fs.map Footprint.effect)) items') :
    ListInvariant S (registered ++ registeredTails steps) items' where
  weighs := by
    refine hinv.weighs.settles (settles_nodes h) fun e he => ?_
    obtain ⟨f, hf, rfl⟩ := List.mem_map.1 he
    exact (hfs.lawful f hf).list.imp And.left fun ⟨t, _, _, ht, _⟩ => ⟨t, ht⟩
  keys := by
    have hkeys := keys_settles hfs.bumps (settles_rewrites h)
    have hinserted : (fs.map Footprint.rewrite).flatMap Rewrite.inserted
        = fs.flatMap Footprint.inserted := List.flatMap_map ..
    rw [hinserted, hfs.inserted_keys] at hkeys
    refine hkeys.trans ?_
    rw [show (slotsOf items).map keyOf = _ from hinv.keys, List.map_append, ← Multiset.coe_add]
    simp only [Multiset.cons_add]
  counted := by
    refine Rewriting.forall_live (fun g hg => (hfs.bumps g hg).rank_eq) (settles_rewrites h)
      hinv.counted (fun g hg v hv => ?_) fun g hg m hm _ => ?_
    · obtain ⟨f, hf, rfl⟩ := List.mem_map.1 hg
      rcases (hfs.lawful f hf).list with ⟨-, hnone, -⟩ | ⟨t, l, r, -, hnew⟩
      · rw [Footprint.rewrite, hnone] at hv
        exact absurd hv List.not_mem_nil
      · rw [Footprint.rewrite, hnew, List.mem_singleton] at hv
        exact ⟨[], _, hv⟩
    · obtain ⟨f, hf, rfl⟩ := List.mem_map.1 hg
      obtain ⟨c, v, v', -, hnext⟩ := ((hfs.lawful f hf).bumps m hm).counters
      exact ⟨_, v', hnext⟩

/-- **The invariant holds after every history.** -/
theorem exists_invariant (hH : M.hash.CollisionFree)
    (hK : K.slot1stCurryHash ≠ K.uniquenessPrelauncher1stCurryHash) (h0 : Starts M.hash K S r₀)
    (hrun : Run (Action.run M K) r₀ events r) :
    ∃ items, Behind M.hash K items r ∧ ListInvariant S (allRegistered events) items := by
  induction hrun with
  | start => exact ⟨_, h0, listInvariant_sentinels S⟩
  | next _ hstep ih =>
      obtain ⟨items, hitems, hinv⟩ := ih
      obtain ⟨fs, hfs⟩ := exists_footprints hstep
      obtain ⟨items', hitems', hsettles⟩ := exists_settlement hH hK hstep hfs hitems
      refine ⟨items', hitems', ?_⟩
      have hnext := hinv.step hfs hsettles
      rwa [allRegistered, List.flatMap_append, List.flatMap_singleton]

/-- A history that goes on keeps every key. -/
theorem ListInvariant.keys_le {registered more : List Clvm} {items items' : Multiset Item}
    (h : ListInvariant S registered items) (h' : ListInvariant S (registered ++ more) items') :
    keysOf items ≤ keysOf items' := by
  rw [h.keys, h'.keys, List.map_append, ← Multiset.coe_add]
  exact Multiset.cons_le_cons _ (Multiset.cons_le_cons _ (Multiset.le_add_right _ _))

end History

/-! ## The slots of a registry in good order -/

/-- The live slots are one list, and they are counted. -/
structure Listed (S : Sentinels) (items : Multiset Item) (l : List (Node Bytes)) : Prop where
  nodes : nodesOf items = (l.map (written atoms) : List (Option (Node Clvm)))
  linked : DoublyLinked S.low S.high l
  counted : ∀ v ∈ slotsOf items, Counted v

section

variable {S : Sentinels} {items : Multiset Item} {l : List (Node Bytes)}

theorem ListInvariant.exists_listed {registered : List Clvm}
    (h : ListInvariant S registered items) : ∃ l, Listed S items l := by
  obtain ⟨l, hl, hlinked⟩ := h.weighs.exists_doublyLinked
  exact ⟨l, hl, hlinked, h.counted⟩

/-- A live slot has a place in the list. -/
theorem Listed.exists_node (h : Listed S items l) {v : Clvm} (hv : v ∈ slotsOf items) :
    ∃ n ∈ l, nodeOf v = some ⟨.atom n.key, .atom n.left, .atom n.right⟩ := by
  have hmem : nodeOf v ∈ nodesOf items := Multiset.mem_map_of_mem nodeOf hv
  rw [h.nodes] at hmem
  obtain ⟨n, hn, hwritten⟩ := List.mem_map.1 (Multiset.mem_coe.1 hmem)
  exact ⟨n, hn, hwritten.symm⟩

/-- Every place in the list has a live slot. -/
theorem Listed.exists_slot (h : Listed S items l) {n : Node Bytes} (hn : n ∈ l) :
    ∃ c, slotValue (.atom c) (.atom n.key) (.atom n.left) (.atom n.right) ∈ slotsOf items := by
  have hmem : written atoms n ∈ nodesOf items := by
    rw [h.nodes]
    exact Multiset.mem_coe.2 (List.mem_map_of_mem hn)
  obtain ⟨v, hv, hnode⟩ := Multiset.mem_map.1 hmem
  obtain ⟨c, rfl⟩ := nodeOf_eq_some hnode
  obtain ⟨b, w, hcounted⟩ := h.counted _ hv
  obtain ⟨rfl, -⟩ := Clvm.pair.inj hcounted
  exact ⟨b, hv⟩

/-- Different live slots have different keys. -/
theorem Listed.nodup_keys (h : Listed S items l) : (keysOf items).Nodup := by
  -- every slot has a place in the list, so its key is the key of its place
  have hkeys : keysOf items = (nodesOf items).map (Option.map Node.key) := by
    rw [keysOf, nodesOf, Multiset.map_map]
    refine Multiset.map_congr rfl fun v hv => ?_
    obtain ⟨n, -, hn⟩ := h.exists_node hv
    rw [keyOf_of_nodeOf hn, Function.comp, hn]
    rfl
  rw [hkeys, h.nodes, Multiset.map_coe, Multiset.coe_nodup, List.map_map]
  have hcomp : l.map (Option.map Node.key ∘ written atoms)
      = (l.map Node.key).map fun k => some (Clvm.atom k) := by
    rw [List.map_map]; rfl
  rw [hcomp]
  exact h.linked.nodup_keys.map fun a b hab => Clvm.atom.inj (Option.some.inj hab)

end

/-! ## An example -/

namespace Example

/-- Bytes of the length of a hash. -/
def filled (n : Byte) : Bytes := List.replicate 32 n

def constants : Constants where
  nftPack := ⟨filled 41, filled 42, filled 43, filled 44, filled 45, filled 46, filled 47, [1, 44]⟩
  uniquenessPrelauncher1stCurryHash := filled 50
  precommit1stCurryHash := filled 51
  slot1stCurryHash := filled 52
  singletonModHash := filled 42
  otherSingletonStructHash := filled 53

def sentinels : Sentinels where
  low := filled 0
  high := filled 255
  lowLeft := filled 0
  highRight := filled 255
  lowCounter := []
  highCounter := []
  lt := by decide
  lowLeft_le := by decide
  highRight_le := by decide

/-- The CAT maker of the registry. -/
def makerProgram : Clvm := defaultCatMakerProgram (filled 60) (filled 61)

def makerHash : Bytes := (Skeleton.ofClvm makerProgram).hash

def state : CatalogState := ⟨.atom makerHash, .ofInt 7⟩

/-- A TAIL of a single byte. -/
def tail : Bytes := [104]

def inner : Bytes := openingHash constants tail (.atom (filled 70)) (filled 71) makerHash .nil

/-- The precommit coin of the registration. -/
def coin : PrecommitCoin := ⟨defaultCatHash (filled 60) (filled 61) inner, intToBytes 7⟩

/-- A registration of the TAIL while the right sentinel has the given counter. -/
def solutionAt (counter : Bytes) : RegisterSolution where
  myId := .atom (filled 1)
  left := ⟨.nil, .atom (filled 0), .atom (filled 0)⟩
  right := ⟨.atom counter, .atom (filled 255), .atom (filled 255)⟩
  catMaker := ⟨makerProgram, .nil⟩
  other := ⟨.atom tail, .atom (filled 70), .atom (filled 71)⟩

def solution : RegisterSolution := solutionAt []

/-- A program that returns the puzzle hash of the coin, whatever it is given. -/
def forgedMaker : Clvm := .quoted (.atom coin.puzzleHash)

def forgedHash : Bytes := (Skeleton.ofClvm forgedMaker).hash

/-- The neighbours with the next counter, and the new slot. -/
def slots : List Clvm :=
  [sentinels.lowSlot, sentinels.highSlot, solution.newSlot,
    solution.leftSlot (.ofInt (intFromBytes [] + 1)) (.atom tail),
    solution.rightSlot (.ofInt (intFromBytes [] + 1)) (.atom tail),
    solution.rightSlot (.atom [1]) (.atom (filled 0)),
    solution.rightSlot (.ofInt (intFromBytes [1] + 1)) (.atom tail)]

/-- The coins on the way to the NFT. -/
def prelauncherHash : Bytes := HashOracle.prelauncherHash (filled 50) tail

def prelauncherId : Bytes := Sha256.hash (filled 1 ++ prelauncherHash ++ [])

def launcherId : Bytes := Sha256.hash (prelauncherId ++ filled 41 ++ [1])

def nftHash : Bytes := HashOracle.nftHash constants.nftPack (filled 70) launcherId

def messages : List Bytes :=
  [filled 1 ++ prelauncherHash ++ [], prelauncherId ++ filled 41 ++ [1],
    launcherId ++ nftHash ++ [1]]

/-- What the registration and a forged refund hash. -/
def parts : List (List Skeleton) :=
  [[.ofClvm makerProgram, .ofClvm forgedMaker, .ofClvm (.pair (.atom tail) (.atom (filled 70)))],
    openingSkeletons constants tail (.atom (filled 70)) (filled 71) makerHash .nil,
    openingSkeletons constants tail (.atom (filled 70)) (filled 71) forgedHash .nil,
    defaultCatMakerSkeletons (filled 60) (filled 61) inner,
    HashOracle.prelauncherSkeletons (filled 50) tail,
    HashOracle.nftSkeletons constants.nftPack (filled 70) launcherId,
    slots.flatMap (HashOracle.slotSkeletons (filled 52))]

def table : HashOracle := .ofTranscript parts.flatten messages

def machine : Machine := .clvm table (fun _ _ => none) 20

theorem collisionFree : machine.hash.CollisionFree :=
  HashOracle.ofTranscript_collisionFree (by decide +kernel)

theorem le_machine : HashOracle.ofSkeletons parts.flatten ≤ machine.hash :=
  HashOracle.ofSkeletons_le_ofTranscript _ _

theorem part {l : List Skeleton} (h : l ∈ parts) : l ⊆ parts.flatten :=
  fun _ ht => List.mem_flatten.2 ⟨l, h, ht⟩

theorem treeHash_part {v : Clvm}
    (h : Skeleton.ofClvm v ∈ [Skeleton.ofClvm makerProgram, .ofClvm forgedMaker,
      .ofClvm (.pair (.atom tail) (.atom (filled 70)))]) :
    machine.hash.treeHash v = some (Skeleton.ofClvm v).hash :=
  HashOracle.treeHash_mono le_machine (HashOracle.treeHash_ofSkeletons
    (part (List.mem_cons_self ..) h))

theorem treeHash_maker : machine.hash.treeHash makerProgram = some makerHash :=
  treeHash_part (v := makerProgram) (by simp)

/-- The puzzle hash of a slot. -/
@[irreducible] def slotPuzzleHash (v : Clvm) : Bytes := HashOracle.slotHash (filled 52) v

theorem slotCoin_eq {v : Clvm} (h : v ∈ slots) :
    machine.hash.slotCoin constants.slot1stCurryHash v = some (slotPuzzleHash v) := by
  unfold slotPuzzleHash
  refine HashOracle.slotCoin_mono le_machine (HashOracle.slotCoin_ofSkeletons fun t ht => ?_)
  exact part (l := slots.flatMap (HashOracle.slotSkeletons (filled 52))) (by simp [parts])
    (List.mem_flatMap.2 ⟨v, h, ht⟩)

theorem inner_eq : precommitInnerPuzzleHash machine.hash constants (solution.opening state)
    = some inner := by
  have hpart : openingSkeletons constants tail (.atom (filled 70)) (filled 71) makerHash .nil
      ⊆ parts.flatten := part (by simp [parts])
  exact precommitInnerPuzzleHash_mono le_machine (precommitInnerPuzzleHash_ofSkeletons hpart)

theorem precommit_eq : precommitPuzzleHash machine constants makerProgram (solution.opening state)
    = some (.atom (defaultCatHash (filled 60) (filled 61) inner)) := by
  have hmaker : defaultCatMaker table (filled 60) (filled 61) inner
      = some (defaultCatHash (filled 60) (filled 61) inner) :=
    defaultCatMaker_mono le_machine (defaultCatMaker_ofSkeletons (part (by simp [parts])))
  refine precommitPuzzleHash_eq_some.2 ⟨inner, inner_eq, ?_⟩
  exact runCatMaker_eq_some.1 (runCatMaker_default 6 hmaker)

theorem prelauncher_eq :
    machine.hash.uniquenessPrelauncherPuzzleHash (filled 50) (.atom tail) = some prelauncherHash :=
  HashOracle.uniquenessPrelauncherPuzzleHash_mono le_machine
    (HashOracle.uniquenessPrelauncherPuzzleHash_ofSkeletons (part (by simp [parts])))

theorem digest_message {m : Bytes} (h : m ∈ messages) :
    machine.hash.digest m = some (Sha256.hash m) := HashOracle.digest_ofTranscript h

theorem truth_eq : (CatalogStateTruth.mk .nil state).toClvm = .pair .nil state.toClvm := rfl

theorem announced_eq : machine.hash.treeHash (.pair (.atom tail) (.atom (filled 70)))
    = some (Skeleton.ofClvm (.pair (.atom tail) (.atom (filled 70)))).hash :=
  treeHash_part (by simp)

/-- A registration of the TAIL. -/
def registering (counter : Bytes)
    (hspent : solution.rightSlot (.atom counter) (.atom (filled 0)) ∈ slots)
    (hcreated : solution.rightSlot (.ofInt (intFromBytes counter + 1)) (.atom tail) ∈ slots) :
    RegisterRun machine constants (CatalogStateTruth.mk .nil state).toClvm
      (solutionAt counter).toClvm where
  t := ⟨.nil, state⟩
  s := solutionAt counter
  truth_eq := truth_eq
  solution_eq := rfl
  tail := tail
  left := filled 0
  right := filled 255
  tail_eq := rfl
  left_eq := rfl
  right_eq := rfl
  above_left := by decide
  below_right := by decide
  catMakerHash := makerHash
  hashes_catMaker := treeHash_maker
  catMaker_eq := rfl
  prelauncher := prelauncherHash
  hashes_prelauncher := prelauncher_eq
  prelauncherId := prelauncherId
  prelauncherId_eq := HashOracle.coinid_eq_some.2 ⟨filled 1, prelauncherHash, [], rfl, rfl, rfl, rfl,
    Sha256.length_hash _, rfl, digest_message (by simp [messages])⟩
  launcherId := launcherId
  launcherId_eq := HashOracle.coinid_eq_some.2 ⟨prelauncherId, filled 41, [1], rfl, rfl, rfl,
    Sha256.length_hash _, rfl, rfl, digest_message (by simp [messages])⟩
  precommit := .atom (defaultCatHash (filled 60) (filled 61) inner)
  makes := precommit_eq
  nftId := Sha256.hash (launcherId ++ nftHash ++ [1])
  nft_eq := HashOracle.nftCoinId_eq_some.2 ⟨nftHash,
    HashOracle.nftPuzzleHash_mono le_machine
      (HashOracle.nftPuzzleHash_ofSkeletons (part (by simp [parts]))),
    HashOracle.coinid_eq_some.2 ⟨launcherId, nftHash, [1], rfl, rfl, rfl, Sha256.length_hash _,
      Sha256.length_hash _, rfl, digest_message (by simp [messages])⟩⟩
  announced := (Skeleton.ofClvm (.pair (.atom tail) (.atom (filled 70)))).hash
  hashes_announced := announced_eq
  leftCounter := []
  leftCounter_eq := rfl
  rightCounter := counter
  rightCounter_eq := rfl
  spentLeft := slotPuzzleHash sentinels.lowSlot
  spends_left := slotCoin_eq (v := sentinels.lowSlot) (by simp [slots])
  spentRight := slotPuzzleHash (solution.rightSlot (.atom counter) (.atom (filled 0)))
  spends_right := slotCoin_eq hspent
  createdNew := slotPuzzleHash solution.newSlot
  creates_new := slotCoin_eq (v := solution.newSlot) (by simp [slots])
  createdLeft := _
  creates_left := slotCoin_eq (v := solution.leftSlot (.ofInt (intFromBytes [] + 1)) (.atom tail))
    (by simp [slots])
  createdRight := _
  creates_right := slotCoin_eq hcreated

/-- The registration between the two sentinels, and one when the right one had been spent. -/
def registration : RegisterRun machine constants (CatalogStateTruth.mk .nil state).toClvm
    solution.toClvm :=
  registering [] (List.mem_cons_of_mem _ (List.mem_cons_self ..)) (by simp [slots])

def laterRegistration : RegisterRun machine constants (CatalogStateTruth.mk .nil state).toClvm
    (solutionAt [1]).toClvm :=
  registering [1] (by simp [slots]) (by simp [slots])

/-- The registry before it. -/
def launched : Registry :=
  ⟨state.toClvm, {slotPuzzleHash sentinels.lowSlot, slotPuzzleHash sentinels.highSlot}⟩

theorem starts : Starts machine.hash constants sentinels launched :=
  starts_of_coins (slotCoin_eq (by simp [slots])) (slotCoin_eq (by simp [slots]))

/-- A block with the registration. -/
def block : Block Action := ⟨⟨100, 500, []⟩, [[⟨.register, solution.toClvm⟩]]⟩

def step : Step Action where
  call := ⟨.register, solution.toClvm⟩
  truth := (CatalogStateTruth.mk .nil state).toClvm
  truth' := (CatalogStateTruth.mk .nil state).toClvm
  conditions := registration.conditions

theorem exists_blockStep :
    ∃ r, BlockStep (Action.run machine constants) launched block [step] r := by
  refine ⟨_, blockStep_singleton (register_eq_some.2 ⟨registration, rfl⟩) rfl ?_ ?_⟩
  · exact le_of_eq rfl
  · simp [RegisterRun.conditions, registerConditions, registration, Condition.Holds, spendCoin,
      createSlotCoin]

end Example

/-! ## The list -/

section

variable {M : Machine} {K : Constants} {S : Sentinels} {r₀ r : Registry}
variable {events : List (Event Action)}

/-- **The list of TAILs.**  After every history the live slots are one list,
sorted by TAIL hash and doubly linked, from the low sentinel to the high one.
Its keys are those of the sentinels and of the registered TAILs: each has one
live slot, no TAIL is registered twice, and no key ever disappears.  Every
action puts a slot with the same key and the next counter in the place of each
slot it spends; a refund, like any action but a registration, leaves keys and
neighbours as they are. -/
theorem tails_doublyLinked (hH : M.hash.CollisionFree)
    (hK : K.slot1stCurryHash ≠ K.uniquenessPrelauncher1stCurryHash) (h0 : Starts M.hash K S r₀)
    (hrun : Run (Action.run M K) r₀ events r) :
    ∃ items, Behind M.hash K items r ∧
      (∃ l : List (Node Bytes),
        nodesOf items = (l.map (written atoms) : List (Option (Node Clvm))) ∧
          DoublyLinked S.low S.high l) ∧
      (keysOf items).Nodup ∧
      keysOf items = some (.atom S.low) ::ₘ some (.atom S.high)
        ::ₘ (((allRegistered events).map some : List (Option Clvm)) : Multiset (Option Clvm)) ∧
      (allRegistered events).Nodup ∧
      (∀ past future r₁ items₁, events = past ++ future → Run (Action.run M K) r₀ past r₁ →
        Behind M.hash K items₁ r₁ → keysOf items₁ ≤ keysOf items) ∧
      ∀ e ∈ events, ∀ s ∈ e.steps, ∃ f : Footprint, f.Matches M.hash K s.conditions ∧
        f.inserted.map keyOf = (Call.registeredTail s.call).toList.map some ∧
        (∀ m ∈ f.moves, keyOf m.2 = keyOf m.1 ∧ counterOf m.2 = counterOf m.1 + 1) ∧
        (s.call.action ≠ .register → f.inserted = [] ∧
          ∀ m ∈ f.moves, nodeOf m.2 = nodeOf m.1) := by
  obtain ⟨items, hitems, hinv⟩ := exists_invariant hH hK h0 hrun
  obtain ⟨l, hl⟩ := hinv.exists_listed
  have hnodup := hl.nodup_keys
  have hregistered : (allRegistered events).Nodup := by
    have h := hnodup
    rw [hinv.keys, Multiset.nodup_cons, Multiset.nodup_cons, Multiset.coe_nodup] at h
    exact List.Nodup.of_map some h.2.2
  refine ⟨items, hitems, ⟨l, hl.nodes, hl.linked⟩, hnodup, hinv.keys, hregistered, ?_, ?_⟩
  · rintro past future r₁ items₁ rfl hpast hitems₁
    obtain ⟨items₂, hitems₂, hinv₂⟩ := exists_invariant hH hK h0 hpast
    rw [hitems₁.unique hH hK hitems₂]
    rw [allRegistered, List.flatMap_append] at hinv
    exact hinv₂.keys_le hinv
  · intro e he s hs
    obtain ⟨past, future, rfl⟩ := List.append_of_mem he
    obtain ⟨r₁, r₂, -, hstep⟩ := hrun.exists_block rfl
    obtain ⟨f, hf⟩ := exists_explains (hstep.run_eq hs)
    refine ⟨f, hf.matches, hf.inserted_key, fun m hm => ?_, fun ha => ?_⟩
    · exact ⟨(hf.lawful.bumps m hm).key, (hf.lawful.bumps m hm).counterOf_eq⟩
    · obtain ⟨hinserted, -, hnodes⟩ := hf.nodeOf_eq ha
      exact ⟨hinserted, hnodes⟩

end

/-- The list after a block with a registration. -/
theorem tails_doublyLinked_registration : ∃ r items,
    Run (Action.run Example.machine Example.constants) Example.launched
      [⟨Example.block, [Example.step]⟩] r ∧
    Behind Example.machine.hash Example.constants items r ∧ (keysOf items).Nodup ∧
    ∃ l : List (Node Bytes), nodesOf items = (l.map (written atoms) : List (Option (Node Clvm))) ∧
      DoublyLinked (Example.filled 0) (Example.filled 255) l := by
  obtain ⟨r, hstep⟩ := Example.exists_blockStep
  have hrun := Run.next .start hstep
  obtain ⟨items, hitems, hlist, hnodup, -⟩ :=
    tails_doublyLinked Example.collisionFree (by decide) Example.starts hrun
  exact ⟨r, items, hrun, hitems, hnodup, hlist⟩

end SlotMachine.Catalog
