import SlotMachine.Ledger.Rewriting
import SlotMachine.Xchandles.Registry

/-!
# XCHandles: the list of handles

Starting from two sentinels that point at each other, the handle slots of the
registry are one sorted, doubly linked list after every block, and they have the
keys of the sentinels and of all handles registered so far.

* `Sentinels`, `Starts` — the initial registry.
* `ListInvariant`, `exists_invariant` — the invariant of a history: what the live
  handle slots weigh, and their keys.
* `exists_handle_trail` — **within a block, the spends of a handle's slot form a
  trail** from the slot before the block to the slot after it.
* `handles_doublyLinked` — **the list**: one live slot for each registered
  handle, no handle registered twice, none lost.
-/

namespace SlotMachine.Xchandles

open Settlement SortedList Trail
open Rewriting (Rewrite keys_settles exists_trail_of_key)

/-! ## The initial registry -/

/-- Two handle slots that point at each other, and nowhere else. -/
structure Sentinels where
  low : Bytes
  high : Bytes
  lowLeft : Bytes
  highRight : Bytes
  lowSlot : Clvm
  highSlot : Clvm
  lt : low < high
  lowLeft_le : ¬ lowLeft < low
  highRight_le : ¬ high < highRight
  lowSlot_node : nodeOf lowSlot = some ⟨.atom low, .atom lowLeft, .atom high⟩
  highSlot_node : nodeOf highSlot = some ⟨.atom high, .atom low, .atom highRight⟩

/-- A registry that has just been launched: its slots are the sentinels. -/
def Starts (H : HashOracle) (K : Constants) (S : Sentinels) (r : Registry) : Prop :=
  Behind H K {.handle S.lowSlot, .handle S.highSlot} r

/-- A registry with the two sentinels has just been launched. -/
theorem starts_of_coins {H : HashOracle} {K : Constants} {S : Sentinels} {state : Clvm}
    {low high : Bytes} (hlow : H.slotCoin K.handleSlot1stCurryHash S.lowSlot = some low)
    (hhigh : H.slotCoin K.handleSlot1stCurryHash S.highSlot = some high) :
    Starts H K S ⟨state, {low, high}⟩ := by
  have hitems := (Represents.cons (f := Item.coin H K) (a := .handle S.highSlot) hhigh
    (represents_zero _)).cons (a := .handle S.lowSlot) hlow
  exact hitems

/-- The places of some handle slots in the list. -/
def nodesOf (items : Multiset Item) : Multiset (Option (Node Clvm)) := (handlesOf items).map nodeOf

/-- The keys of some handle slots. -/
def keysOf (items : Multiset Item) : Multiset (Option Clvm) := (handlesOf items).map keyOf

/-- The keys registered in a history. -/
def allRegistered (events : List (Event Action)) : List Clvm :=
  events.flatMap fun e => registeredKeys e.steps

/-! ## One block -/

section Block

variable {items items' : Multiset Item} {fs : List Footprint}

theorem map_nodeOf_handleEffect (f : Footprint) :
    f.handleEffect.map (Multiset.mapAddMonoidHom nodeOf) = f.nodeEffect := by
  refine congrArg₂ Effect.mk ?_ ?_
  · simp [Footprint.handleEffect, Function.comp_def]
  · simp [Footprint.handleEffect, Function.comp_def]

theorem settles_nodes (h : Settles items (Effect.total (fs.map Footprint.effect)) items') :
    Settles (nodesOf items) (Effect.total (fs.map Footprint.nodeEffect)) (nodesOf items') := by
  have hmap := (settles_handles h).map (Multiset.mapAddMonoidHom nodeOf)
  rw [List.map_map] at hmap
  have hcongr : fs.map (Effect.map (Multiset.mapAddMonoidHom nodeOf) ∘ Footprint.handleEffect)
      = fs.map Footprint.nodeEffect := List.map_congr_left fun f _ => map_nodeOf_handleEffect f
  rw [hcongr] at hmap
  exact hmap

/-- What a footprint rewrites. -/
def Footprint.rewrite (f : Footprint) : Rewrite Clvm := ⟨f.moves, f.inserted⟩

theorem Footprint.Lawful.bumps_rewrite {f : Footprint} (h : f.Lawful) :
    f.rewrite.Bumps keyOf counterOf where
  key_eq m hm := (h.bumps m hm).key
  rank_eq m hm := (h.bumps m hm).counterOf_eq

theorem bumps_rewrites (hfs : ∀ f ∈ fs, f.Lawful) :
    ∀ g ∈ fs.map Footprint.rewrite, g.Bumps keyOf counterOf := by
  intro g hg
  obtain ⟨f, hf, rfl⟩ := List.mem_map.1 hg
  exact (hfs f hf).bumps_rewrite

/-- The handle slots settle as rewritten values. -/
theorem settles_rewrites (h : Settles items (Effect.total (fs.map Footprint.effect)) items') :
    Settles (handlesOf items)
      (Effect.total ((fs.map Footprint.rewrite).map Rewrite.effect)) (handlesOf items') := by
  have hsettles := settles_handles h
  rwa [List.map_map]

theorem flatMap_inserted (fs : List Footprint) :
    (fs.map Footprint.rewrite).flatMap Rewrite.inserted = fs.flatMap Footprint.inserted :=
  List.flatMap_map ..

/-- A block adds the keys it registers. -/
theorem keysOf_settles (hfs : ∀ f ∈ fs, f.Lawful)
    (h : Settles items (Effect.total (fs.map Footprint.effect)) items') :
    keysOf items' = keysOf items
      + ((fs.flatMap Footprint.inserted).map keyOf : List (Option Clvm)) := by
  rw [← flatMap_inserted]
  exact keys_settles (bumps_rewrites hfs) (settles_rewrites h)

/-- The moves of a block on the handle slots with the key `k`. -/
def movesOn (k : Option Clvm) (fs : List Footprint) : List (Clvm × Clvm) :=
  (fs.flatMap Footprint.moves).filter fun m => keyOf m.1 = k

theorem movesOn_eq (k : Option Clvm) (fs : List Footprint) :
    movesOn k fs = Rewriting.movesOn keyOf k (fs.map Footprint.rewrite) := by
  rw [movesOn, Rewriting.movesOn, List.flatMap_map]
  rfl

theorem climbs_movesOn (hfs : ∀ f ∈ fs, f.Lawful) (k : Option Clvm) :
    Climbs counterOf (movesOn k fs : Multiset (Clvm × Clvm)) := by
  rw [movesOn_eq]
  exact Rewriting.climbs_movesOn (bumps_rewrites hfs) k

/-- **The history of a handle within a block.**  Either there is no handle with
the key and no action touches it, or its slot (live before the block or added by
it) goes through all the moves on the key, one after the other, to the slot live
afterwards. -/
theorem exists_handle_trail (hfs : ∀ f ∈ fs, f.Lawful)
    (h : Settles items (Effect.total (fs.map Footprint.effect)) items')
    (hnodup : (keysOf items').Nodup) (k : Option Clvm) :
    ((∀ v ∈ handlesOf items, keyOf v ≠ k) ∧ movesOn k fs = []) ∨
      ∃ a b trail, (a ∈ handlesOf items ∨ a ∈ fs.flatMap Footprint.inserted) ∧
        (∀ v ∈ handlesOf items, keyOf v = k → v = a) ∧ b ∈ handlesOf items' ∧ keyOf a = k ∧
        keyOf b = k ∧ trail.Perm (movesOn k fs) ∧ IsTrail a trail b := by
  have htrail := exists_trail_of_key (bumps_rewrites hfs) (settles_rewrites h) hnodup k
  rwa [← movesOn_eq, flatMap_inserted] at htrail

end Block

/-! ## Histories -/

section History

variable {M : Machine} {K : Constants} {S : Sentinels} {r₀ r : Registry}
variable {events : List (Event Action)}

/-- The invariant of a history: the live handle slots weigh what the sentinels
weigh, and their keys are those of the sentinels and of the registered handles. -/
structure ListInvariant (S : Sentinels) (registered : List Clvm) (items : Multiset Item) : Prop where
  weighs : WeighsList atoms S.low S.high S.lowLeft S.highRight (nodesOf items)
  keys : keysOf items = some (.atom S.low) ::ₘ some (.atom S.high)
    ::ₘ ((registered.map some : List (Option Clvm)) : Multiset (Option Clvm))

theorem listInvariant_sentinels (S : Sentinels) :
    ListInvariant S [] {.handle S.lowSlot, .handle S.highSlot} where
  weighs := by
    have hnodes : nodesOf {.handle S.lowSlot, .handle S.highSlot}
        = {nodeOf S.lowSlot, nodeOf S.highSlot} := rfl
    rw [hnodes, S.lowSlot_node, S.highSlot_node]
    exact weighsList_sentinels S.lt S.lowLeft_le S.highRight_le
  keys := by
    have hkeys : keysOf {.handle S.lowSlot, .handle S.highSlot}
        = {keyOf S.lowSlot, keyOf S.highSlot} := rfl
    rw [hkeys, keyOf_of_nodeOf S.lowSlot_node, keyOf_of_nodeOf S.highSlot_node]
    rfl

/-- One block keeps the invariant. -/
theorem ListInvariant.step {registered : List Clvm} {items items' : Multiset Item}
    (hinv : ListInvariant S registered items) {steps : List (Step Action)} {fs : List Footprint}
    (hfs : Footprints M K steps fs)
    (h : Settles items (Effect.total (fs.map Footprint.effect)) items') :
    ListInvariant S (registered ++ registeredKeys steps) items' where
  weighs := by
    refine hinv.weighs.settles (settles_nodes h) fun e he => ?_
    obtain ⟨f, hf, rfl⟩ := List.mem_map.1 he
    exact (hfs.lawful f hf).list.imp And.left fun ⟨k, _, hk, _⟩ => ⟨k, hk⟩
  keys := by
    rw [keysOf_settles hfs.lawful h, hinv.keys, hfs.inserted_keys, List.map_append,
      ← Multiset.coe_add]
    simp only [Multiset.cons_add]

/-- **The invariant holds after every history.** -/
theorem exists_invariant (hH : M.hash.CollisionFree)
    (hK : K.handleSlot1stCurryHash ≠ K.updateSlot1stCurryHash) (h0 : Starts M.hash K S r₀)
    (hrun : Run (Action.run M K) r₀ events r) :
    ∃ items, Behind M.hash K items r ∧ ListInvariant S (allRegistered events) items := by
  induction hrun with
  | start => exact ⟨_, h0, listInvariant_sentinels S⟩
  | next _ hstep ih =>
      obtain ⟨items, hitems, hinv⟩ := ih
      obtain ⟨fs, hfs⟩ := exists_footprints hstep
      obtain ⟨items', hitems', hsettles⟩ := exists_settlement hH hK hstep hfs hitems
      refine ⟨items', hitems', ?_⟩
      have hnext := hinv.step hfs hsettles
      rwa [allRegistered, List.flatMap_append, List.flatMap_singleton]

/-- A history that goes on keeps every key. -/
theorem ListInvariant.keys_le {registered more : List Clvm} {items items' : Multiset Item}
    (h : ListInvariant S registered items) (h' : ListInvariant S (registered ++ more) items') :
    keysOf items ≤ keysOf items' := by
  rw [h.keys, h'.keys, List.map_append, ← Multiset.coe_add]
  exact Multiset.cons_le_cons _ (Multiset.cons_le_cons _ (Multiset.le_add_right _ _))

/-- The list behind the invariant. -/
theorem ListInvariant.exists_doublyLinked {registered : List Clvm} {items : Multiset Item}
    (h : ListInvariant S registered items) :
    ∃ l : List (Node Bytes), nodesOf items = (l.map (written atoms) : List (Option (Node Clvm))) ∧
      DoublyLinked S.low S.high l :=
  h.weighs.exists_doublyLinked

/-- Different live handle slots have different keys. -/
theorem nodup_keysOf {items : Multiset Item} {l : List (Node Bytes)} {lo hi : Bytes}
    (h : nodesOf items = (l.map (written atoms) : List (Option (Node Clvm))))
    (hl : DoublyLinked lo hi l) : (keysOf items).Nodup := by
  -- every slot has a place in the list, so its key is the key of its place
  have hkeys : keysOf items = (nodesOf items).map (Option.map Node.key) := by
    rw [keysOf, nodesOf, Multiset.map_map]
    refine Multiset.map_congr rfl fun v hv => ?_
    have hmem : nodeOf v ∈ nodesOf items := Multiset.mem_map_of_mem nodeOf hv
    rw [h] at hmem
    obtain ⟨n, -, hn⟩ := List.mem_map.1 (Multiset.mem_coe.1 hmem)
    rw [keyOf_of_nodeOf hn.symm, Function.comp, ← hn]
    rfl
  rw [hkeys, h, Multiset.map_coe, Multiset.coe_nodup, List.map_map]
  have hcomp : l.map (Option.map Node.key ∘ written atoms)
      = (l.map Node.key).map fun k => some (Clvm.atom k) := by
    rw [List.map_map]; rfl
  rw [hcomp]
  exact hl.nodup_keys.map fun a b hab => Clvm.atom.inj (Option.some.inj hab)

end History

/-! ## An example -/

namespace Example

/-- Bytes of the length of a hash. -/
def bytes32 (n : Byte) : Bytes := List.replicate 32 n

def constants : Constants where
  singletonModHash := bytes32 1
  singletonLauncherPuzzleHash := bytes32 2
  precommit1stCurryHash := bytes32 3
  handleSlot1stCurryHash := bytes32 4
  updateSlot1stCurryHash := bytes32 5
  offerModHash := bytes32 6
  payoutPuzzleHash := bytes32 7
  relativeBlockHeight := 32
  otherSingletonStructHash := bytes32 8

/-- The slots of a launched registry; the counter of the first one may vary. -/
def lowSlot (counter : Clvm) : Clvm :=
  handleSlotValue counter (.atom (bytes32 0)) (.pair (.atom (bytes32 0)) (.atom (bytes32 255)))
    (.ofInt 1000) (.pair (.atom (bytes32 9)) (.atom (bytes32 9)))

def highSlot : Clvm :=
  handleSlotValue .nil (.atom (bytes32 255)) (.pair (.atom (bytes32 0)) (.atom (bytes32 255)))
    (.ofInt 1000) (.pair (.atom (bytes32 9)) (.atom (bytes32 9)))

def sentinels : Sentinels where
  low := bytes32 0
  high := bytes32 255
  lowLeft := bytes32 0
  highRight := bytes32 255
  lowSlot := lowSlot .nil
  highSlot := highSlot
  lt := by decide
  lowLeft_le := by decide
  highRight_le := by decide
  lowSlot_node := rfl
  highSlot_node := rfl

/-- The state of the registry: three puzzle hashes. -/
def state : Clvm := .pair (.atom (bytes32 10)) (.pair (.atom (bytes32 11)) (.atom (bytes32 12)))

/-- The CAT maker of the registry. -/
def makerProgram : Clvm := defaultCatMakerProgram (bytes32 30) (bytes32 31)

/-- A pricing puzzle with one price and one period. -/
def pricingProgram : Clvm := .quoted (.pair (.ofInt 7) (.ofInt 366))

def makerHash : Bytes := (Skeleton.ofClvm makerProgram).hash

def pricingHash : Bytes := (Skeleton.ofClvm pricingProgram).hash

def handleHash : Bytes := (Skeleton.atom [104]).hash

end Example

/-! ## A handle and its updates

A handle is registered; its owner asks for one update and then, with the next
coin, for another one, which is executed.  Instead, the handle could be bought
after it has expired. -/

namespace UpdateExample

open Example

/-- The state of a registry that sells free and expired handles for one price. -/
def sales : XchandlesState := ⟨.atom makerHash, .atom pricingHash, .atom pricingHash⟩

def truth : Clvm := (XchandlesStateTruth.mk .nil sales).toClvm

/-- The data of a slot whose owner is `i` and that resolves to `j`. -/
def data (i j : Byte) : HandleSlotData := ⟨.atom (bytes32 i), .atom (bytes32 j)⟩

/-- The registration, between the two sentinels. -/
def solution : RegisterSolution where
  handleHash := .atom handleHash
  leftValue := .atom (bytes32 0)
  rightValue := .atom (bytes32 255)
  catMaker := ⟨makerProgram, .nil⟩
  handlePricing := ⟨pricingProgram, ⟨.ofInt 500, .nil, .atom [104], .nil⟩⟩
  left := ⟨.nil, .atom (bytes32 0), .pair (.ofInt 1000) (data 9 9).toClvm⟩
  right := ⟨.nil, .atom (bytes32 255), .pair (.ofInt 1000) (data 9 9).toClvm⟩
  ownerInnerPuzzleHash := .atom (bytes32 23)
  resolvedInnerPuzzleHash := .atom (bytes32 23)
  other := ⟨data 20 20, .atom (bytes32 21), .atom (bytes32 22)⟩

/-- The slot of the handle while it has its first owner. -/
def current (counter : Bytes) : CurrentSlot where
  counter := .atom counter
  handleHash := .atom handleHash
  neighbors := .pair (.atom (bytes32 0)) (.atom (bytes32 255))
  expiration := .ofInt 866
  ownerLauncherId := .atom (bytes32 20)
  resolvedLauncherId := .atom (bytes32 20)

/-- The puzzle hash of the owner's coins. -/
def ownerHash : Bytes := HashOracle.singletonHash (bytes32 1) (bytes32 2) (bytes32 20) (bytes32 23)

/-- The coin of the owner with the given parent. -/
@[irreducible] def ownerCoin (parent : Bytes) : Bytes := Sha256.hash (parent ++ ownerHash ++ [1])

/-- An update the owner asks for, with the counter of the slot before and after. -/
structure Request where
  counter : Bytes
  next : Bytes
  parent : Bytes
  newData : HandleSlotData

def Request.coin (x : Request) : Bytes := ownerCoin x.parent

def Request.solution (x : Request) : InitiateSolution where
  currentSlot := current x.counter
  newData := x.newData.toClvm
  currentOwnerProof := ⟨.atom x.parent, .atom (bytes32 23), .atom [1]⟩
  minHeight := .ofInt 120

/-- The update slot it opens. -/
def Request.updateSlot (x : Request) : Clvm :=
  updateSlotValue (.atom x.coin) (.ofInt 152) (.atom handleHash) x.newData.toClvm

def first : Request := ⟨[], [1], bytes32 40, data 26 27⟩

/-- The coin of the second request is the child of the coin of the first. -/
def second : Request := ⟨[1], [2], first.coin, data 24 25⟩

/-- The execution of the second update. -/
def execution : ExecuteSolution where
  minExecutionHeight := .ofInt 152
  currentSlot := current [2]
  newData := data 24 25
  currentOwnerProof := ⟨.atom second.coin, .atom (bytes32 23), .atom [1]⟩
  newOwnerInnerPuzzleHash := .atom (bytes32 23)
  newResolvedInnerPuzzleHash := .atom (bytes32 23)

/-- The purchase of the handle after its expiration. -/
def purchase (counter : Bytes) : ExpireSolution where
  pricing := ⟨pricingProgram, ⟨.ofInt 900, .ofInt 866, .atom [104], .nil⟩⟩
  catMaker := ⟨makerProgram, .nil⟩
  other := ⟨data 28 28, .atom (bytes32 21), .atom (bytes32 22)⟩
  counter := .atom counter
  neighbors := .pair (.atom (bytes32 0)) (.atom (bytes32 255))
  oldRest := (data 20 20).toClvm
  newOwnerInnerPuzzleHash := .atom (bytes32 23)
  newResolvedInnerPuzzleHash := .atom (bytes32 23)

def inner : Bytes := precommitInnerHash constants (bytes32 21) (solution.precommitValue sales)

def purchaseInner : Bytes :=
  precommitInnerHash constants (bytes32 21) ((purchase []).precommitValue sales)

/-- The slot of the handle after the purchase. -/
def purchased (counter : Bytes) : Clvm :=
  handleSlotValue (.atom counter) (.atom handleHash)
    (.pair (.atom (bytes32 0)) (.atom (bytes32 255))) (.ofInt 1266) (data 28 28).toClvm

/-- All handle slots of the example. -/
def handleSlots : List Clvm :=
  [lowSlot .nil, highSlot, solution.leftSlot (.ofInt (intFromBytes [] + 1)) (.atom handleHash),
    solution.rightSlot (.ofInt (intFromBytes [] + 1)) (.atom handleHash), (current []).toClvm,
    (current [1]).toClvm, (current [2]).toClvm, (current [2]).update (.atom [3]) (data 24 25).toClvm,
    purchased [2], purchased [3]]

def programs : List Skeleton :=
  [.ofClvm makerProgram, .ofClvm pricingProgram, .ofClvm (.atom [104])]

/-- The launcher ids of the singletons that take part. -/
def launcherIds : List Bytes := [bytes32 20, bytes32 24, bytes32 25, bytes32 28]

/-- What the actions hash, but for the coins of the owner. -/
def parts : List (List Skeleton) :=
  [programs,
    precommitSkeletons constants (bytes32 21) (solution.precommitValue sales),
    precommitSkeletons constants (bytes32 21) ((purchase []).precommitValue sales),
    defaultCatMakerSkeletons (bytes32 30) (bytes32 31) inner,
    defaultCatMakerSkeletons (bytes32 30) (bytes32 31) purchaseInner,
    launcherIds.flatMap fun i => HashOracle.singletonSkeletons (bytes32 1) (bytes32 2) i (bytes32 23),
    handleSlots.flatMap (HashOracle.slotSkeletons (bytes32 4)),
    [first.updateSlot, second.updateSlot].flatMap (HashOracle.slotSkeletons (bytes32 5))]

/-- The parents of the owner's coins. -/
def parents : List Bytes := [bytes32 40, first.coin, second.coin]

def table : HashOracle := .ofTranscript parts.flatten (parents.map fun p => p ++ ownerHash ++ [1])

def machine : Machine := .clvm table (fun _ _ => none) 20

theorem collisionFree : machine.hash.CollisionFree :=
  HashOracle.ofTranscript_collisionFree (by decide +kernel)

theorem le_machine : HashOracle.ofSkeletons parts.flatten ≤ machine.hash :=
  HashOracle.ofSkeletons_le_ofTranscript _ _

theorem part {l : List Skeleton} (h : l ∈ parts) : l ⊆ parts.flatten :=
  fun _ ht => List.mem_flatten.2 ⟨l, h, ht⟩

theorem treeHash_program {v : Clvm} (h : .ofClvm v ∈ programs) :
    machine.hash.treeHash v = some (Skeleton.ofClvm v).hash :=
  HashOracle.treeHash_mono le_machine
    (HashOracle.treeHash_ofSkeletons (part (List.mem_cons_self ..) h))

theorem treeHash_maker : machine.hash.treeHash makerProgram = some makerHash :=
  treeHash_program (v := makerProgram) (by simp [programs])

/-- The puzzle hash of a handle slot. -/
@[irreducible] def handleCoin (v : Clvm) : Bytes := HashOracle.slotHash (bytes32 4) v

theorem handleCoin_eq {v : Clvm} (h : v ∈ handleSlots) :
    machine.hash.slotCoin constants.handleSlot1stCurryHash v = some (handleCoin v) := by
  unfold handleCoin
  refine HashOracle.slotCoin_mono le_machine (HashOracle.slotCoin_ofSkeletons fun t ht => ?_)
  exact part (l := handleSlots.flatMap (HashOracle.slotSkeletons (bytes32 4))) (by simp [parts])
    (List.mem_flatMap.2 ⟨v, h, ht⟩)

/-- The puzzle hash of a singleton. -/
@[irreducible] def singleton (i : Byte) : Bytes :=
  HashOracle.singletonHash (bytes32 1) (bytes32 2) (bytes32 i) (bytes32 23)

theorem singleton_eq {i : Byte} (h : bytes32 i ∈ launcherIds) :
    singletonPuzzleHash machine.hash constants (.atom (bytes32 i)) (.atom (bytes32 23))
      = some (singleton i) := by
  unfold singleton
  refine HashOracle.singletonPuzzleHash_mono le_machine
    (HashOracle.singletonPuzzleHash_ofSkeletons fun t ht => ?_)
  exact part (l := launcherIds.flatMap fun i =>
    HashOracle.singletonSkeletons (bytes32 1) (bytes32 2) i (bytes32 23)) (by simp [parts])
    (List.mem_flatMap.2 ⟨_, h, ht⟩)

theorem ownerCoin_eq {parent : Bytes} (h : parent ∈ parents) (hlength : parent.length = 32) :
    ownerCoinId machine.hash constants (.atom (bytes32 20))
      ⟨.atom parent, .atom (bytes32 23), .atom [1]⟩ = some (ownerCoin parent) := by
  refine bind_intro (singleton_eq (i := 20) (by simp [launcherIds])) ?_
  unfold singleton ownerCoin
  exact HashOracle.coinid_eq_some.2 ⟨parent, ownerHash, [1], rfl, rfl, rfl, hlength,
    Sha256.length_hash _, rfl, HashOracle.digest_ofTranscript
      (List.mem_map_of_mem (f := fun p => p ++ ownerHash ++ [1]) h)⟩

/-! ### What the actions compute -/

theorem truth_eq : truth = (XchandlesStateTruth.mk .nil sales).toClvm := rfl

theorem maker_eq {o : Bytes} (h : defaultCatMakerSkeletons (bytes32 30) (bytes32 31) o ∈ parts) :
    runCatMaker machine makerProgram o .nil
      = some (defaultCatHash (bytes32 30) (bytes32 31) o) := by
  have hmaker : defaultCatMaker table (bytes32 30) (bytes32 31) o
      = some (defaultCatHash (bytes32 30) (bytes32 31) o) :=
    defaultCatMaker_mono le_machine (defaultCatMaker_ofSkeletons (part h))
  exact runCatMaker_default 6 hmaker

/-- The handle is registered. -/
def registration : RegisterRun machine constants truth solution.toClvm where
  t := ⟨.nil, sales⟩
  s := solution
  truth_eq := truth_eq
  solution_eq := rfl
  priced := ⟨.ofInt 7, .ofInt 366⟩
  runs_pricing := runPricing_quoted ..
  handleHash := handleHash
  left := bytes32 0
  right := bytes32 255
  catMakerHash := makerHash
  pricingHash := pricingHash
  handleHash_eq := rfl
  left_eq := rfl
  right_eq := rfl
  hashes_handle := treeHash_program (v := .atom [104]) (by simp [programs])
  fresh := rfl
  above_left := by decide +kernel
  below_right := by decide +kernel
  catMaker_eq := rfl
  hashes_catMaker := treeHash_maker
  pricing_eq := rfl
  hashes_pricing := treeHash_program (v := pricingProgram) (by simp [programs])
  inner := inner
  hashes_inner := precommitInnerPuzzleHash_mono le_machine
    (precommitInnerPuzzleHash_ofSkeletons (r := bytes32 21) (part (by simp [parts])))
  precommitCoin := defaultCatHash (bytes32 30) (bytes32 31) inner
  runs_catMaker := maker_eq (by simp [parts])
  owner := singleton 20
  hashes_owner := singleton_eq (i := 20) (by simp [launcherIds])
  resolved := singleton 20
  hashes_resolved := singleton_eq (i := 20) (by simp [launcherIds])
  expiration := .ofInt 866
  expiration_eq := Clvm.add_ofInt 500 366
  leftCounter := []
  leftCounter_eq := rfl
  rightCounter := []
  rightCounter_eq := rfl
  spentLeft := handleCoin (lowSlot .nil)
  spends_left := handleCoin_eq (v := lowSlot .nil) (by simp [handleSlots])
  spentRight := handleCoin highSlot
  spends_right := handleCoin_eq (v := highSlot) (by simp [handleSlots])
  createdNew := handleCoin (current []).toClvm
  creates_new := handleCoin_eq (v := (current []).toClvm) (by simp [handleSlots])
  createdLeft := handleCoin (solution.leftSlot (.ofInt (intFromBytes [] + 1)) (.atom handleHash))
  creates_left := handleCoin_eq (by simp [handleSlots])
  createdRight := handleCoin (solution.rightSlot (.ofInt (intFromBytes [] + 1)) (.atom handleHash))
  creates_right := handleCoin_eq (by simp [handleSlots])

/-- The hash of an update slot, and its puzzle hash. -/
@[irreducible] def updateHash (v : Clvm) : Bytes := (Skeleton.ofClvm v).hash

@[irreducible] def updateCoin (v : Clvm) : Bytes := HashOracle.slotHash (bytes32 5) v

theorem updateSlot_eq {v : Clvm} (h : v ∈ [first.updateSlot, second.updateSlot]) :
    machine.hash.treeHash v = some (updateHash v) ∧
      machine.hash.getSlotPuzzleHash constants.updateSlot1stCurryHash (updateHash v)
        = some (updateCoin v) := by
  have hslot : HashOracle.slotSkeletons (bytes32 5) v ⊆ parts.flatten := fun t ht =>
    part (l := [first.updateSlot, second.updateSlot].flatMap (HashOracle.slotSkeletons (bytes32 5)))
      (by simp [parts]) (List.mem_flatMap.2 ⟨v, h, ht⟩)
  have hhash : machine.hash.treeHash v = some (updateHash v) := by
    unfold updateHash
    exact HashOracle.treeHash_mono le_machine
      (HashOracle.treeHash_ofSkeletons (hslot (by simp [HashOracle.slotSkeletons])))
  refine ⟨hhash, HashOracle.getSlotPuzzleHash_of_slotCoin hhash ?_⟩
  unfold updateCoin
  exact HashOracle.slotCoin_mono le_machine (HashOracle.slotCoin_ofSkeletons hslot)

/-- The tables have what a request hashes. -/
structure Request.Possible (x : Request) : Prop where
  parent : x.parent ∈ parents
  length : x.parent.length = 32
  next_eq : Clvm.ofInt (intFromBytes x.counter + 1) = .atom x.next
  spent : (current x.counter).toClvm ∈ handleSlots
  created : (current x.next).toClvm ∈ handleSlots
  opened : x.updateSlot ∈ [first.updateSlot, second.updateSlot]

theorem first_possible : first.Possible where
  parent := by simp [parents, first]
  length := rfl
  next_eq := by decide
  spent := by simp [handleSlots, first]
  created := by simp [handleSlots, first]
  opened := by simp

theorem length_ownerCoin (parent : Bytes) : (ownerCoin parent).length = 32 := by
  unfold ownerCoin
  exact Sha256.length_hash _

theorem second_possible : second.Possible where
  parent := by simp [parents, second]
  length := length_ownerCoin _
  next_eq := by decide
  spent := by simp [handleSlots, second]
  created := by simp [handleSlots, second]
  opened := by simp

/-- The owner asks for an update. -/
def Request.initiation (x : Request) (hx : x.Possible) :
    InitiateRun machine constants x.solution.toClvm where
  s := x.solution
  solution_eq := rfl
  initiatorCoinId := x.coin
  initiates := ownerCoin_eq hx.parent hx.length
  minHeight := intToBytes 120
  minHeight_eq := rfl
  slotValueHash := updateHash x.updateSlot
  hashes_slot := by
    rw [intFromBytes_intToBytes]
    exact (updateSlot_eq hx.opened).1
  counter := x.counter
  counter_eq := rfl
  spent := handleCoin (current x.counter).toClvm
  spends := handleCoin_eq hx.spent
  created := handleCoin (current x.next).toClvm
  creates := by
    rw [hx.next_eq]
    exact handleCoin_eq hx.created
  opened := updateCoin x.updateSlot
  opens := (updateSlot_eq hx.opened).2

/-- The slot of the handle with its new owner. -/
def updated : Clvm := (current [2]).update (.atom [3]) (data 24 25).toClvm

/-- The second update is executed. -/
def executed : ExecuteRun machine constants execution.toClvm where
  s := execution
  solution_eq := rfl
  slotValueHash := updateHash second.updateSlot
  hashes_slot := (updateSlot_eq (v := second.updateSlot) (by simp)).1
  ownerId := ownerCoin second.coin
  executes := by
    have hparent : second.coin ∈ parents := by simp [parents]
    exact ownerCoin_eq hparent (length_ownerCoin _)
  newOwner := singleton 24
  hashes_newOwner := singleton_eq (i := 24) (by simp [launcherIds])
  newResolved := singleton 25
  hashes_newResolved := singleton_eq (i := 25) (by simp [launcherIds])
  counter := [2]
  counter_eq := rfl
  spent := handleCoin (current [2]).toClvm
  spends := handleCoin_eq (v := (current [2]).toClvm) (by simp [handleSlots])
  created := handleCoin updated
  creates := handleCoin_eq (v := updated) (by simp [handleSlots, updated])
  closed := updateCoin second.updateSlot
  closes := (updateSlot_eq (v := second.updateSlot) (by simp)).2

/-- The handle is bought, with the slot that has the given counter. -/
def buying (counter next : Bytes) (hnext : Clvm.ofInt (intFromBytes counter + 1) = .atom next)
    (hspent : (current counter).toClvm ∈ handleSlots) (hcreated : purchased next ∈ handleSlots) :
    ExpireRun machine constants truth (purchase counter).toClvm where
  t := ⟨.nil, sales⟩
  s := purchase counter
  truth_eq := truth_eq
  solution_eq := rfl
  catMakerHash := makerHash
  pricingHash := pricingHash
  hashes_catMaker := treeHash_maker
  catMaker_eq := rfl
  hashes_pricing := treeHash_program (v := pricingProgram) (by simp [programs])
  pricing_eq := rfl
  handleHash := handleHash
  hashes_handle := treeHash_program (v := .atom [104]) (by simp [programs])
  priced := ⟨.ofInt 7, .ofInt 366⟩
  runs_pricing := runPricing_quoted ..
  inner := purchaseInner
  hashes_inner := by
    have hpart : precommitSkeletons constants (bytes32 21) ((purchase []).precommitValue sales)
        ⊆ parts.flatten := part (by simp [parts])
    exact precommitInnerPuzzleHash_mono le_machine (precommitInnerPuzzleHash_ofSkeletons hpart)
  precommitCoin := defaultCatHash (bytes32 30) (bytes32 31) purchaseInner
  runs_catMaker := maker_eq (by simp [parts])
  owner := singleton 28
  hashes_owner := singleton_eq (i := 28) (by simp [launcherIds])
  counter := counter
  counter_eq := rfl
  spent := handleCoin (current counter).toClvm
  spends := handleCoin_eq hspent
  expiration := .ofInt 1266
  expiration_eq := Clvm.add_ofInt 366 900
  created := handleCoin (purchased next)
  creates := by
    rw [hnext]
    exact handleCoin_eq hcreated
  resolvedApproval := []
  approves := by
    refine bind_intro (Clvm.eq_atom _) ?_
    rfl

/-- The purchase after both requests, and one after the first. -/
def bought : ExpireRun machine constants truth (purchase [2]).toClvm :=
  buying [2] [3] (by decide) (by simp [handleSlots]) (by simp [handleSlots])

def boughtEarlier : ExpireRun machine constants truth (purchase [1]).toClvm :=
  buying [1] [2] (by decide) (by simp [handleSlots]) (by simp [handleSlots])

/-! ### The blocks -/

/-- A block with one action that keeps the state. -/
def event (info : BlockInfo) (call : Call Action) (cs : List Condition) : Event Action :=
  ⟨⟨info, [[call]]⟩, [⟨call, truth, truth, cs⟩]⟩

def registered : Event Action :=
  event ⟨100, 600, []⟩ ⟨.register, solution.toClvm⟩ registration.conditions

def firstInitiated : Event Action :=
  event ⟨110, 700, [first.coin]⟩ ⟨.initiateUpdate, first.solution.toClvm⟩
    (first.initiation first_possible).conditions

def secondInitiated : Event Action :=
  event ⟨115, 750, [second.coin]⟩ ⟨.initiateUpdate, second.solution.toClvm⟩
    (second.initiation second_possible).conditions

def secondExecuted : Event Action :=
  event ⟨160, 800, [ownerCoin second.coin]⟩ ⟨.executeUpdate, execution.toClvm⟩ executed.conditions

/-- The blocks before the execution. -/
def pending : List (Event Action) := [registered, firstInitiated, secondInitiated]

def launched : Registry := ⟨sales.toClvm, {handleCoin (lowSlot .nil), handleCoin highSlot}⟩

theorem starts : Starts machine.hash constants sentinels launched :=
  starts_of_coins (handleCoin_eq (v := lowSlot .nil) (by simp [handleSlots]))
    (handleCoin_eq (v := highSlot) (by simp [handleSlots]))

/-- The handle has not expired. -/
theorem before_expiration {info : BlockInfo} (h : info.timestamp < 866) :
    (Condition.assertBeforeSecondsAbsolute (.ofInt 866)).Holds info :=
  (Condition.holds_assertBeforeSecondsAbsolute (n := 866) (by decide)).2 h

theorem registration_holds : ∀ c ∈ registration.conditions, c.Holds registered.block.info := by
  have hbuy : (Condition.assertSecondsAbsolute (.ofInt 500)).Holds registered.block.info :=
    (Condition.holds_assertSecondsAbsolute (n := 500) (by decide)).2 (by decide : 500 ≤ 600)
  exact registration.holds hbuy

theorem initiation_holds {x : Request} (hx : x.Possible) {info : BlockInfo}
    (hheight : info.height < 120) (htime : info.timestamp < 866) (hcoin : x.coin ∈ info.spentCoins) :
    ∀ c ∈ (x.initiation hx).conditions, c.Holds info := by
  have hahead : (Condition.assertBeforeHeightAbsolute (.ofInt 120)).Holds info :=
    (Condition.holds_assertBeforeHeightAbsolute (n := 120) (by decide)).2 hheight
  exact (x.initiation hx).holds (before_expiration htime) hahead hcoin

theorem execution_holds : ∀ c ∈ executed.conditions, c.Holds secondExecuted.block.info := by
  have hreached : (Condition.assertHeightAbsolute (.ofInt 152)).Holds secondExecuted.block.info :=
    (Condition.holds_assertHeightAbsolute (n := 152) (by decide)).2 (by decide : 152 ≤ 160)
  have htime : secondExecuted.block.info.timestamp < 866 := by
    show 800 < 866
    omega
  exact executed.holds (before_expiration htime) hreached (List.mem_singleton_self _)

/-- A block with one accepted action, after which the coins it created are live. -/
theorem exists_next {past : List (Event Action)} {r : Registry}
    (hpast : Run (Action.run machine constants) launched past r) (hstate : r.state = sales.toClvm)
    (info : BlockInfo) (call : Call Action) {cs : List Condition}
    (hruns : call.action.run machine constants truth call.solution = some (truth, cs))
    (hlive : slotSpends cs ≤ r.live) (hholds : ∀ c ∈ cs, c.Holds info) :
    ∃ r', Run (Action.run machine constants) launched (past ++ [event info call cs]) r' ∧
      r'.state = sales.toClvm ∧ zeroCoins cs ≤ r'.live := by
  obtain ⟨state, live⟩ := r
  obtain rfl : state = sales.toClvm := hstate
  exact ⟨_, .next hpast (blockStep_singleton hruns rfl hlive hholds), rfl,
    Multiset.le_add_left _ _⟩

/-- The registry before the execution has the slots that the second request created. -/
theorem exists_pending : ∃ r, Run (Action.run machine constants) launched pending r ∧
    r.state = sales.toClvm ∧ zeroCoins (second.initiation second_possible).conditions ≤ r.live := by
  have hnew : handleCoin (current first.counter).toClvm ∈ zeroCoins registration.conditions := by
    rw [registration.zeroCoins_conditions]
    exact Multiset.mem_cons_self _ _
  have hnext : handleCoin (current first.next).toClvm
      ∈ zeroCoins (first.initiation first_possible).conditions := by
    rw [InitiateRun.zeroCoins_conditions]
    exact Multiset.mem_cons_self _ _
  obtain ⟨r₁, hrun₁, hstate₁, hlive₁⟩ := exists_next .start rfl _ ⟨.register, solution.toClvm⟩
    (register_eq_some.2 ⟨registration, rfl⟩) (le_of_eq registration.slotSpends_conditions)
    registration_holds
  obtain ⟨r₂, hrun₂, hstate₂, hlive₂⟩ := exists_next hrun₁ hstate₁ ⟨110, 700, [first.coin]⟩
    ⟨.initiateUpdate, first.solution.toClvm⟩
    (initiateUpdate_eq_some.2 ⟨first.initiation first_possible, rfl⟩)
    (by
      rw [InitiateRun.slotSpends_conditions, Multiset.singleton_le]
      exact Multiset.mem_of_le hlive₁ hnew)
    (initiation_holds _ (by decide) (by decide) (List.mem_singleton_self _))
  exact exists_next hrun₂ hstate₂ _ ⟨.initiateUpdate, second.solution.toClvm⟩
    (initiateUpdate_eq_some.2 ⟨second.initiation second_possible, rfl⟩)
    (by
      rw [InitiateRun.slotSpends_conditions, Multiset.singleton_le]
      exact Multiset.mem_of_le hlive₂ hnext)
    (initiation_holds _ (by decide) (by decide) (List.mem_singleton_self _))

/-- **The whole history.** -/
theorem exists_run : ∃ r,
    Run (Action.run machine constants) launched (pending ++ [secondExecuted]) r := by
  obtain ⟨r₁, hrun₁, hstate₁, hlive₁⟩ := exists_pending
  have hlive : slotSpends executed.conditions ≤ r₁.live := by
    rw [InitiateRun.zeroCoins_conditions] at hlive₁
    rw [ExecuteRun.slotSpends_conditions]
    exact hlive₁
  obtain ⟨r, hrun, -⟩ := exists_next hrun₁ hstate₁ _ ⟨.executeUpdate, execution.toClvm⟩
    (executeUpdate_eq_some.2 ⟨executed, rfl⟩) hlive execution_holds
  exact ⟨r, hrun⟩

end UpdateExample

/-! ## The list -/

section

variable {M : Machine} {K : Constants} {S : Sentinels} {r₀ r : Registry}
variable {events : List (Event Action)}

/-- **The list of handles.**  After every history the live handle slots are one
list, sorted by key and doubly linked, from the low sentinel to the high one.
Its keys are those of the sentinels and of the registered handles: each has one
live slot, no handle is registered twice, and no key ever disappears.  Every
action puts a slot with the same key and the next counter in the place of each
handle slot it spends. -/
theorem handles_doublyLinked (hH : M.hash.CollisionFree)
    (hK : K.handleSlot1stCurryHash ≠ K.updateSlot1stCurryHash) (h0 : Starts M.hash K S r₀)
    (hrun : Run (Action.run M K) r₀ events r) :
    ∃ items, Behind M.hash K items r ∧
      (∃ l : List (Node Bytes),
        nodesOf items = (l.map (written atoms) : List (Option (Node Clvm))) ∧
          DoublyLinked S.low S.high l) ∧
      (keysOf items).Nodup ∧
      keysOf items = some (.atom S.low) ::ₘ some (.atom S.high)
        ::ₘ (((allRegistered events).map some : List (Option Clvm)) : Multiset (Option Clvm)) ∧
      (allRegistered events).Nodup ∧
      (∀ past future r₁ items₁, events = past ++ future → Run (Action.run M K) r₀ past r₁ →
        Behind M.hash K items₁ r₁ → keysOf items₁ ≤ keysOf items) ∧
      ∀ e ∈ events, ∀ s ∈ e.steps, ∃ f : Footprint, f.Matches M.hash K s.conditions ∧
        (f.inserted.map keyOf = (Call.registeredKey s.call).toList.map some) ∧
        ∀ m ∈ f.moves, keyOf m.2 = keyOf m.1 ∧ counterOf m.2 = counterOf m.1 + 1 := by
  obtain ⟨items, hitems, hinv⟩ := exists_invariant hH hK h0 hrun
  obtain ⟨l, hl, hlinked⟩ := hinv.exists_doublyLinked
  have hnodup := nodup_keysOf hl hlinked
  have hregistered : (allRegistered events).Nodup := by
    have h := hnodup
    rw [hinv.keys, Multiset.nodup_cons, Multiset.nodup_cons, Multiset.coe_nodup] at h
    exact List.Nodup.of_map some h.2.2
  refine ⟨items, hitems, ⟨l, hl, hlinked⟩, hnodup, hinv.keys, hregistered, ?_, ?_⟩
  · rintro past future r₁ items₁ rfl hpast hitems₁
    obtain ⟨items₂, hitems₂, hinv₂⟩ := exists_invariant hH hK h0 hpast
    rw [hitems₁.unique hH hK hitems₂]
    rw [allRegistered, List.flatMap_append] at hinv
    exact hinv₂.keys_le hinv
  · intro e he s hs
    obtain ⟨past, future, rfl⟩ := List.append_of_mem he
    obtain ⟨r₁, r₂, -, hstep⟩ := hrun.exists_block rfl
    obtain ⟨f, hf⟩ := exists_explains (hstep.run_eq hs)
    refine ⟨f, hf.matches, hf.inserted_key, fun m hm => ?_⟩
    exact ⟨(hf.lawful.bumps m hm).key, (hf.lawful.bumps m hm).counterOf_eq⟩

end

/-- The list after the history of the handle: its key is between those of the sentinels. -/
theorem handles_doublyLinked_registration : ∃ r items,
    Run (Action.run UpdateExample.machine Example.constants) UpdateExample.launched
      (UpdateExample.pending ++ [UpdateExample.secondExecuted]) r ∧
    Behind UpdateExample.machine.hash Example.constants items r ∧
    keysOf items = {some (.atom (Example.bytes32 0)), some (.atom (Example.bytes32 255)),
      some (.atom Example.handleHash)} ∧
    ∃ l : List (Node Bytes), nodesOf items = (l.map (written atoms) : List (Option (Node Clvm))) ∧
      DoublyLinked (Example.bytes32 0) (Example.bytes32 255) l := by
  obtain ⟨r, hrun⟩ := UpdateExample.exists_run
  obtain ⟨items, hitems, hlist, -, hkeys, -⟩ :=
    handles_doublyLinked UpdateExample.collisionFree (by decide) UpdateExample.starts hrun
  exact ⟨r, items, hrun, hitems, hkeys, hlist⟩

end SlotMachine.Xchandles
