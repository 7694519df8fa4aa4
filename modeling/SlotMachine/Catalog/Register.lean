import SlotMachine.Catalog.Footprint

/-!
# CATalog: `register`

`register.rue` adds a TAIL to the registry.  The solution reveals a precommit
coin and two slots that point at each other; the TAIL goes between them, an NFT
is launched for it, and the precommit coin is sent the message that lets it pay
out.

* `register` — the action.
* `RegisterRun` — everything a registration computes when it does not raise;
  `register_eq_some` says that this is what running the action means.
* `RegisterRun.footprint` — two slots come back, one is added, and the
  prelauncher of the TAIL is created.
* `RegisterRun.launches` — the chain of coins to the NFT.
-/

namespace SlotMachine.Catalog

open Settlement SortedList

/-- What the solution says of a neighbour: `(counter, (tail_hash, outer tail_hash))`. -/
structure NeighborSlot where
  counter : Clvm
  tailHash : Clvm
  outerTailHash : Clvm

/-- The solution of `register`. -/
structure RegisterSolution where
  myId : Clvm
  left : NeighborSlot
  right : NeighborSlot
  catMaker : CatMaker
  other : OtherPrecommitData

namespace RegisterSolution

def toClvm (s : RegisterSolution) : Clvm :=
  .pair s.myId (.pair (.pair s.left.counter (.pair s.left.tailHash s.left.outerTailHash))
    (.pair (.pair s.right.counter (.pair s.right.tailHash s.right.outerTailHash))
      (.pair (.pair s.catMaker.puzzle s.catMaker.solution) s.other.toClvm)))

def ofClvm? : Clvm → Option RegisterSolution
  | .pair myId (.pair (.pair lc (.pair lt ll)) (.pair (.pair rc (.pair rt rr))
      (.pair (.pair cm cms) (.pair tail (.pair owner refund))))) =>
      some ⟨myId, ⟨lc, lt, ll⟩, ⟨rc, rt, rr⟩, ⟨cm, cms⟩, ⟨tail, owner, refund⟩⟩
  | _ => none

theorem ofClvm?_eq_some {v : Clvm} {s : RegisterSolution} : ofClvm? v = some s ↔ v = s.toClvm := by
  constructor
  · intro h
    unfold ofClvm? at h
    split at h
    · cases h; rfl
    · cases h
  · rintro rfl; rfl

/-- What the revealed precommit coin has to commit to. -/
def opening (s : RegisterSolution) (state : CatalogState) : Opening :=
  ⟨s.other, state.catMakerPuzzleHash, s.catMaker.solution⟩

/-- The left slot, pointing right at `rightValue`. -/
def leftSlot (s : RegisterSolution) (counter rightValue : Clvm) : Clvm :=
  slotValue counter s.left.tailHash s.left.outerTailHash rightValue

/-- The right slot, pointing left at `leftValue`. -/
def rightSlot (s : RegisterSolution) (counter leftValue : Clvm) : Clvm :=
  slotValue counter s.right.tailHash leftValue s.right.outerTailHash

/-- The new slot. -/
def newSlot (s : RegisterSolution) : Clvm :=
  slotValue .nil s.other.tailHash s.left.tailHash s.right.tailHash

end RegisterSolution

/-- The conditions of `register`, from what it computes. -/
def registerConditions (prelauncher : Bytes) (nft : Condition) (myId : Clvm) (announced : Bytes)
    (spendLeft spendRight createNew createLeft createRight : Condition)
    (precommit registrationPrice : Clvm) : List Condition :=
  [.createCoin (.atom prelauncher) .nil [],
    nft,
    .assertMyCoinId myId,
    .createPuzzleAnnouncement (.tagged 'r' announced),
    spendLeft,
    spendRight,
    createNew,
    createLeft,
    createRight,
    .sendMessage puzzlePuzzleAmount (.atom [1]) [precommit, registrationPrice]]

/-- `register.rue`. -/
def register (M : Machine) (K : Constants) (truth solution : Clvm) :
    Option (Clvm × List Condition) := do
  let t ← CatalogStateTruth.ofClvm? truth
  let s ← RegisterSolution.ofClvm? solution
  let aboveLeft ← s.other.tailHash.gtBytes s.left.tailHash
  let belowRight ← s.right.tailHash.gtBytes s.other.tailHash
  let catMakerHash ← M.hash.treeHash s.catMaker.puzzle
  let catMakerMatches ← (Clvm.atom catMakerHash).eq t.state.catMakerPuzzleHash
  assertThat (aboveLeft && belowRight && catMakerMatches)
  let prelauncher ← M.hash.uniquenessPrelauncherPuzzleHash K.uniquenessPrelauncher1stCurryHash
    s.other.tailHash
  let prelauncherId ← M.hash.coinid s.myId (.atom prelauncher) .nil
  let launcherId ← M.hash.coinid (.atom prelauncherId) (.atom K.nftPack.launcherModHash) (.atom [1])
  let precommit ← precommitPuzzleHash M K s.catMaker.puzzle (s.opening t.state)
  let nft ← M.hash.secureNft K.nftPack s.other.initialNftOwnerPh launcherId
  let announced ← M.hash.treeHash (.pair s.other.tailHash s.other.initialNftOwnerPh)
  let spendLeft ← spendSlotValue M.hash K (s.leftSlot s.left.counter s.right.tailHash)
  let spendRight ← spendSlotValue M.hash K (s.rightSlot s.right.counter s.left.tailHash)
  let createNew ← createSlotValue M.hash K s.newSlot
  let leftCounter ← s.left.counter.increment
  let createLeft ← createSlotValue M.hash K (s.leftSlot leftCounter s.other.tailHash)
  let rightCounter ← s.right.counter.increment
  let createRight ← createSlotValue M.hash K (s.rightSlot rightCounter s.other.tailHash)
  return (truth, registerConditions prelauncher nft s.myId announced spendLeft spendRight createNew
    createLeft createRight precommit t.state.registrationPrice)

/-! ## What a registration computes -/

/-- Everything `register` computes when it does not raise. -/
structure RegisterRun (M : Machine) (K : Constants) (truth solution : Clvm) where
  t : CatalogStateTruth
  s : RegisterSolution
  truth_eq : truth = t.toClvm
  solution_eq : solution = s.toClvm
  tail : Bytes
  left : Bytes
  right : Bytes
  tail_eq : s.other.tailHash = .atom tail
  left_eq : s.left.tailHash = .atom left
  right_eq : s.right.tailHash = .atom right
  above_left : left < tail
  below_right : tail < right
  catMakerHash : Bytes
  hashes_catMaker : M.hash.treeHash s.catMaker.puzzle = some catMakerHash
  catMaker_eq : t.state.catMakerPuzzleHash = .atom catMakerHash
  prelauncher : Bytes
  hashes_prelauncher : M.hash.uniquenessPrelauncherPuzzleHash K.uniquenessPrelauncher1stCurryHash
    s.other.tailHash = some prelauncher
  prelauncherId : Bytes
  prelauncherId_eq : M.hash.coinid s.myId (.atom prelauncher) .nil = some prelauncherId
  launcherId : Bytes
  launcherId_eq : M.hash.coinid (.atom prelauncherId) (.atom K.nftPack.launcherModHash) (.atom [1])
    = some launcherId
  precommit : Clvm
  makes : precommitPuzzleHash M K s.catMaker.puzzle (s.opening t.state) = some precommit
  nftId : Bytes
  nft_eq : M.hash.nftCoinId K.nftPack s.other.initialNftOwnerPh launcherId = some nftId
  announced : Bytes
  hashes_announced : M.hash.treeHash (.pair s.other.tailHash s.other.initialNftOwnerPh)
    = some announced
  leftCounter : Bytes
  leftCounter_eq : s.left.counter = .atom leftCounter
  rightCounter : Bytes
  rightCounter_eq : s.right.counter = .atom rightCounter
  spentLeft : Bytes
  spends_left : M.hash.slotCoin K.slot1stCurryHash
    (s.leftSlot (.atom leftCounter) (.atom right)) = some spentLeft
  spentRight : Bytes
  spends_right : M.hash.slotCoin K.slot1stCurryHash
    (s.rightSlot (.atom rightCounter) (.atom left)) = some spentRight
  createdNew : Bytes
  creates_new : M.hash.slotCoin K.slot1stCurryHash s.newSlot = some createdNew
  createdLeft : Bytes
  creates_left : M.hash.slotCoin K.slot1stCurryHash
    (s.leftSlot (.ofInt (intFromBytes leftCounter + 1)) (.atom tail)) = some createdLeft
  createdRight : Bytes
  creates_right : M.hash.slotCoin K.slot1stCurryHash
    (s.rightSlot (.ofInt (intFromBytes rightCounter + 1)) (.atom tail)) = some createdRight

/-- The conditions of the registration. -/
def RegisterRun.conditions {M : Machine} {K : Constants} {truth solution : Clvm}
    (r : RegisterRun M K truth solution) : List Condition :=
  registerConditions r.prelauncher (.assertConcurrentSpend (.atom r.nftId)) r.s.myId r.announced
    (spendCoin r.spentLeft) (spendCoin r.spentRight) (createSlotCoin K r.createdNew)
    (createSlotCoin K r.createdLeft) (createSlotCoin K r.createdRight) r.precommit
    r.t.state.registrationPrice

theorem secureNft_eq_some {H : HashOracle} {P : NftPack} {i : Clvm} {l : Bytes} {c : Condition} :
    H.secureNft P i l = some c ↔
      ∃ id, H.nftCoinId P i l = some id ∧ c = .assertConcurrentSpend (.atom id) := by
  simp only [HashOracle.secureNft, Option.bind_eq_bind, Option.bind_eq_some_iff, Option.pure_def,
    Option.some.injEq, eq_comm (b := c)]

theorem register_eq_some {M : Machine} {K : Constants} {truth solution : Clvm}
    {out : Clvm × List Condition} :
    register M K truth solution = some out ↔
      ∃ r : RegisterRun M K truth solution, out = (truth, r.conditions) := by
  constructor
  · intro h
    obtain ⟨t, ht, h1⟩ := bind_elim h
    obtain ⟨s, hs, h2⟩ := bind_elim h1
    obtain ⟨b1, hb1, h3⟩ := bind_elim h2
    obtain ⟨b2, hb2, h4⟩ := bind_elim h3
    obtain ⟨cm, hcm, h5⟩ := bind_elim h4
    obtain ⟨b3, hb3, h6⟩ := bind_elim h5
    obtain ⟨_, hassert, h7⟩ := bind_elim h6
    obtain ⟨prelauncher, hprelauncher, h8⟩ := bind_elim h7
    obtain ⟨prelauncherId, hprelauncherId, h9⟩ := bind_elim h8
    obtain ⟨launcherId, hlauncherId, h10⟩ := bind_elim h9
    obtain ⟨precommit, hprecommit, h11⟩ := bind_elim h10
    obtain ⟨nft, hnft, h12⟩ := bind_elim h11
    obtain ⟨announced, hannounced, h13⟩ := bind_elim h12
    obtain ⟨sl, hsl, h14⟩ := bind_elim h13
    obtain ⟨sr, hsr, h15⟩ := bind_elim h14
    obtain ⟨cn, hcn, h16⟩ := bind_elim h15
    obtain ⟨lc, hlc, h17⟩ := bind_elim h16
    obtain ⟨cl, hcl, h18⟩ := bind_elim h17
    obtain ⟨rc, hrc, h19⟩ := bind_elim h18
    obtain ⟨cr, hcr, h20⟩ := bind_elim h19
    -- the checks passed
    simp only [assertThat_eq_some, Bool.and_eq_true] at hassert
    obtain ⟨⟨rfl, rfl⟩, rfl⟩ := hassert
    obtain ⟨tail, L, htail, hL, hlt⟩ := Clvm.gtBytes_eq_some_true.1 hb1
    obtain ⟨R, _, hR, htail', hlt'⟩ := Clvm.gtBytes_eq_some_true.1 hb2
    obtain rfl := Clvm.atom.inj (htail.symm.trans htail')
    obtain ⟨_, hcm', hcatMaker⟩ := Clvm.eq_eq_some_true.1 hb3
    obtain rfl := Clvm.atom.inj hcm'
    -- the slots
    obtain ⟨nftId, hnftId, rfl⟩ := secureNft_eq_some.1 hnft
    obtain ⟨spentLeft, hsl', rfl⟩ := spendSlotValue_eq_some.1 hsl
    obtain ⟨spentRight, hsr', rfl⟩ := spendSlotValue_eq_some.1 hsr
    obtain ⟨createdNew, hcn', rfl⟩ := createSlotValue_eq_some.1 hcn
    obtain ⟨createdLeft, hcl', rfl⟩ := createSlotValue_eq_some.1 hcl
    obtain ⟨createdRight, hcr', rfl⟩ := createSlotValue_eq_some.1 hcr
    obtain ⟨lcb, hlc', rfl⟩ := Clvm.increment_eq_some.1 hlc
    obtain ⟨rcb, hrc', rfl⟩ := Clvm.increment_eq_some.1 hrc
    rw [hlc', hR] at hsl'
    rw [hrc', hL] at hsr'
    rw [htail] at hcl' hcr'
    exact ⟨⟨t, s, CatalogStateTruth.ofClvm?_eq_some.1 ht, RegisterSolution.ofClvm?_eq_some.1 hs,
      tail, L, R, htail, hL, hR, hlt, hlt', _, hcm, hcatMaker, prelauncher, hprelauncher,
      prelauncherId, hprelauncherId, launcherId, hlauncherId, precommit, hprecommit, nftId, hnftId,
      announced, hannounced, lcb, hlc', rcb, hrc', spentLeft, hsl', spentRight, hsr', createdNew,
      hcn', createdLeft, hcl', createdRight, hcr'⟩, (Option.some.inj h20).symm⟩
  · rintro ⟨r, rfl⟩
    have hleft := r.spends_left
    have hright := r.spends_right
    have hleft' := r.creates_left
    have hright' := r.creates_right
    rw [← r.leftCounter_eq, ← r.right_eq] at hleft
    rw [← r.rightCounter_eq, ← r.left_eq] at hright
    rw [← r.tail_eq] at hleft' hright'
    refine bind_intro (CatalogStateTruth.ofClvm?_eq_some.2 r.truth_eq) ?_
    refine bind_intro (RegisterSolution.ofClvm?_eq_some.2 r.solution_eq) ?_
    refine bind_intro (a := true) (by
      rw [r.tail_eq, r.left_eq, Clvm.gtBytes_atom r.above_left]) ?_
    refine bind_intro (a := true) (by
      rw [r.tail_eq, r.right_eq, Clvm.gtBytes_atom r.below_right]) ?_
    refine bind_intro r.hashes_catMaker ?_
    refine bind_intro (a := true) (by rw [r.catMaker_eq, Clvm.eq_atom]) ?_
    refine bind_intro (a := ()) rfl ?_
    refine bind_intro r.hashes_prelauncher ?_
    refine bind_intro r.prelauncherId_eq ?_
    refine bind_intro r.launcherId_eq ?_
    refine bind_intro r.makes ?_
    refine bind_intro (secureNft_eq_some.2 ⟨_, r.nft_eq, rfl⟩) ?_
    refine bind_intro r.hashes_announced ?_
    refine bind_intro (spendSlotValue_eq_some.2 ⟨_, hleft, rfl⟩) ?_
    refine bind_intro (spendSlotValue_eq_some.2 ⟨_, hright, rfl⟩) ?_
    refine bind_intro (createSlotValue_eq_some.2 ⟨_, r.creates_new, rfl⟩) ?_
    refine bind_intro (by rw [r.leftCounter_eq, Clvm.increment_atom]) ?_
    refine bind_intro (createSlotValue_eq_some.2 ⟨_, hleft', rfl⟩) ?_
    refine bind_intro (by rw [r.rightCounter_eq, Clvm.increment_atom]) ?_
    exact bind_intro (createSlotValue_eq_some.2 ⟨_, hright', rfl⟩) rfl

namespace RegisterRun

variable {M : Machine} {K : Constants} {truth solution : Clvm}
variable (r : RegisterRun M K truth solution)

/-- The chain of coins from the registry to the NFT of the TAIL. -/
def launches : Launches M.hash K.nftPack K.uniquenessPrelauncher1stCurryHash r.s.myId
    r.s.other.tailHash r.s.other.initialNftOwnerPh r.nftId where
  prelauncherPuzzleHash := r.prelauncher
  prelauncherId := r.prelauncherId
  launcherId := r.launcherId
  hashes_prelauncher := r.hashes_prelauncher
  prelauncher := r.prelauncherId_eq
  launcher := r.launcherId_eq
  nft := r.nft_eq

/-! ## The slots of a registration -/

/-- The neighbours come back, the new slot goes between them, and the prelauncher
of the TAIL is created. -/
def footprint : Footprint where
  moves := [
    (r.s.leftSlot (.atom r.leftCounter) (.atom r.right),
      r.s.leftSlot (.ofInt (intFromBytes r.leftCounter + 1)) (.atom r.tail)),
    (r.s.rightSlot (.atom r.rightCounter) (.atom r.left),
      r.s.rightSlot (.ofInt (intFromBytes r.rightCounter + 1)) (.atom r.tail))]
  inserted := [r.s.newSlot]
  prelaunched := [r.s.other.tailHash]

theorem footprint_matches : r.footprint.Matches M.hash K r.conditions where
  consumed := by
    have hspends : slotSpends r.conditions = r.spentLeft ::ₘ r.spentRight ::ₘ 0 := rfl
    rw [hspends]
    exact (Represents.cons r.spends_right (represents_zero _)).cons r.spends_left
  created := by
    have hcreates : zeroCoins r.conditions
        = r.prelauncher ::ₘ r.createdNew ::ₘ r.createdLeft ::ₘ r.createdRight ::ₘ 0 := rfl
    have horder : r.footprint.effect.created
        = Item.prelauncher r.s.other.tailHash
          ::ₘ Item.slot r.s.newSlot
          ::ₘ Item.slot (r.s.leftSlot (.ofInt (intFromBytes r.leftCounter + 1)) (.atom r.tail))
          ::ₘ Item.slot (r.s.rightSlot (.ofInt (intFromBytes r.rightCounter + 1)) (.atom r.tail))
          ::ₘ 0 :=
      Multiset.coe_eq_coe.2 ((@List.perm_append_comm _ [_, _, _] [_]).trans
        (List.Perm.cons _ (@List.perm_append_comm _ [_, _] [_])))
    rw [hcreates, horder]
    exact (((Represents.cons r.creates_right (represents_zero _)).cons r.creates_left).cons
      r.creates_new).cons r.hashes_prelauncher

/-- A registration inserts its TAIL between its two neighbours. -/
theorem inserts_footprint : Inserts atoms r.tail r.footprint.nodeEffect := by
  refine ⟨r.left, r.right, r.s.left.outerTailHash, r.s.right.outerTailHash, r.above_left,
    r.below_right, ?_, ?_⟩
  · simp only [Footprint.nodeEffect, footprint, RegisterSolution.leftSlot,
      RegisterSolution.rightSlot, r.left_eq, r.right_eq, List.map_cons, List.map_nil,
      nodeOf_slotValue]
    rfl
  · simp only [Footprint.nodeEffect, footprint, RegisterSolution.leftSlot,
      RegisterSolution.rightSlot, RegisterSolution.newSlot, r.left_eq, r.right_eq, r.tail_eq,
      List.map_cons, List.map_nil, nodeOf_slotValue]
    exact Multiset.coe_eq_coe.2 (@List.perm_append_comm _ [_, _] [_])

theorem footprint_lawful : r.footprint.Lawful where
  bumps := by
    intro m hm
    rcases List.mem_pair.1 hm with rfl | rfl <;> exact ⟨⟨_, _, _, rfl, rfl⟩, rfl⟩
  list := Or.inr ⟨r.tail, r.s.left.tailHash, r.s.right.tailHash, r.inserts_footprint, by
    rw [footprint, RegisterSolution.newSlot, r.tail_eq]⟩

end RegisterRun

end SlotMachine.Catalog
