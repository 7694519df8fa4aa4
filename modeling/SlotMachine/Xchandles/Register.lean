import SlotMachine.Xchandles.Footprint

/-!
# XCHandles: `register`

`register.rue` adds a handle to the registry.  The solution reveals a precommit
coin and two handle slots that point at each other; the handle goes between
them, and the precommit coin is sent the message that lets it pay out.

* `register` — the action.
* `RegisterRun` — everything a registration computes when it does not raise;
  `register_eq_some` says that this is what running the action means.
* `RegisterRun.footprint` — two handle slots come back, one is added.
-/

namespace SlotMachine.Xchandles

open Settlement SortedList

/-- The solution of `register`. -/
structure RegisterSolution where
  handleHash : Clvm
  leftValue : Clvm
  rightValue : Clvm
  catMaker : CatMaker
  handlePricing : HandlePricing
  left : RegisterThisSlotInfo
  right : RegisterThisSlotInfo
  ownerInnerPuzzleHash : Clvm
  resolvedInnerPuzzleHash : Clvm
  other : OtherPrecommitData

namespace RegisterSolution

def toClvm (s : RegisterSolution) : Clvm :=
  .pair s.handleHash (.pair (.pair s.leftValue s.rightValue)
    (.pair (.pair s.catMaker.puzzle s.catMaker.solution)
      (.pair (.pair s.handlePricing.puzzle s.handlePricing.solution.toClvm)
        (.pair (.pair s.left.thisCounter (.pair s.left.thisThisValue s.left.thisB))
          (.pair (.pair s.right.thisCounter (.pair s.right.thisThisValue s.right.thisB))
            (.pair (.pair s.ownerInnerPuzzleHash s.resolvedInnerPuzzleHash)
              (.pair s.other.newRest.toClvm
                (.pair s.other.refundPuzzleHashHash s.other.secret))))))))

def ofClvm? : Clvm → Option RegisterSolution
  | .pair handleHash (.pair (.pair leftValue rightValue) (.pair (.pair cm cms)
      (.pair (.pair pp (.pair bt (.pair ce (.pair handle rest))))
        (.pair (.pair lc (.pair lv lb)) (.pair (.pair rc (.pair rv rb))
          (.pair (.pair op rp) (.pair (.pair o r) (.pair rph secret)))))))) =>
      some ⟨handleHash, leftValue, rightValue, ⟨cm, cms⟩, ⟨pp, ⟨bt, ce, handle, rest⟩⟩,
        ⟨lc, lv, lb⟩, ⟨rc, rv, rb⟩, op, rp, ⟨⟨o, r⟩, rph, secret⟩⟩
  | _ => none

theorem ofClvm?_eq_some {v : Clvm} {s : RegisterSolution} : ofClvm? v = some s ↔ v = s.toClvm := by
  constructor
  · intro h
    unfold ofClvm? at h
    split at h
    · cases h; rfl
    · cases h
  · rintro rfl; rfl

/-- The value the revealed precommit coin has to commit to. -/
def precommitValue (s : RegisterSolution) (state : XchandlesState) : PrecommitValue where
  catMakerHash := state.catMakerPuzzleHash
  catMakerSolution := s.catMaker.solution
  pricingHash := state.pricingPuzzleHash
  pricingSolution := s.handlePricing.solution.toClvm
  handle := s.handlePricing.solution.handle
  secret := s.other.secret
  data := s.other.newRest.toClvm

/-- The left slot, pointing right at `rightValue`. -/
def leftSlot (s : RegisterSolution) (counter rightValue : Clvm) : Clvm :=
  handleSlotWith counter s.leftValue (.pair s.left.thisThisValue rightValue) s.left.thisB

/-- The right slot, pointing left at `leftValue`. -/
def rightSlot (s : RegisterSolution) (counter leftValue : Clvm) : Clvm :=
  handleSlotWith counter s.rightValue (.pair leftValue s.right.thisThisValue) s.right.thisB

/-- The new slot. -/
def newSlot (s : RegisterSolution) (expiration : Clvm) : Clvm :=
  handleSlotValue .nil s.handleHash (.pair s.leftValue s.rightValue) expiration
    s.other.newRest.toClvm

end RegisterSolution

/-- The conditions of `register`, from the hashes it computes. -/
def registerConditions (buyTime : Clvm)
    (spendLeft spendRight createNew createLeft createRight : Condition)
    (precommitCoin : Bytes) (totalPrice : Clvm) (owner resolved : Bytes) : List Condition :=
  [.assertSecondsAbsolute buyTime,
    spendLeft,
    spendRight,
    createNew,
    createLeft,
    createRight,
    .sendMessage puzzlePuzzleAmount (.atom [1]) [.atom precommitCoin, totalPrice],
    .createPuzzleAnnouncement (.tagged 'r' precommitCoin),
    .receiveMessage puzzlePuzzle (.tagged 'a' precommitCoin) [.atom owner]]
  ++ if owner = resolved then []
    else [.receiveMessage puzzlePuzzle (.tagged 'b' precommitCoin) [.atom resolved]]

/-- `register.rue`. -/
def register (M : Machine) (K : Constants) (truth solution : Clvm) :
    Option (Clvm × List Condition) := do
  let t ← XchandlesStateTruth.ofClvm? truth
  let s ← RegisterSolution.ofClvm? solution
  let pricing := s.handlePricing.solution
  let priced ← runPricing M s.handlePricing.puzzle pricing.toClvm
  let hashOfHandle ← M.hash.treeHashAtom pricing.handle
  let catMakerHash ← M.hash.treeHash s.catMaker.puzzle
  let pricingHash ← M.hash.treeHash s.handlePricing.puzzle
  let handleMatches ← s.handleHash.eq (.atom hashOfHandle)
  let aboveLeft ← s.handleHash.gtBytes s.leftValue
  let belowRight ← s.rightValue.gtBytes s.handleHash
  let catMakerMatches ← t.state.catMakerPuzzleHash.eq (.atom catMakerHash)
  let pricingMatches ← t.state.pricingPuzzleHash.eq (.atom pricingHash)
  -- the handle is being registered, so there is no expiration yet
  assertThat (handleMatches && !pricing.currentExpiration.truthy && aboveLeft && belowRight
    && catMakerMatches && pricingMatches)
  let inner ← precommitInnerPuzzleHash M.hash K s.other.refundPuzzleHashHash
    (s.precommitValue t.state)
  let precommitCoin ← runCatMaker M s.catMaker.puzzle inner s.catMaker.solution
  let owner ← singletonPuzzleHash M.hash K s.other.newRest.ownerLauncherId s.ownerInnerPuzzleHash
  let resolved ← singletonPuzzleHash M.hash K s.other.newRest.resolvedLauncherId
    s.resolvedInnerPuzzleHash
  let spendLeft ← spendHandle M.hash K (s.leftSlot s.left.thisCounter s.rightValue)
  let spendRight ← spendHandle M.hash K (s.rightSlot s.right.thisCounter s.leftValue)
  let expiration ← pricing.buyTime.add priced.registeredTime
  let createNew ← createHandle M.hash K (s.newSlot expiration)
  let leftCounter ← s.left.thisCounter.increment
  let createLeft ← createHandle M.hash K (s.leftSlot leftCounter s.handleHash)
  let rightCounter ← s.right.thisCounter.increment
  let createRight ← createHandle M.hash K (s.rightSlot rightCounter s.handleHash)
  return (truth, registerConditions pricing.buyTime spendLeft spendRight createNew createLeft
    createRight precommitCoin priced.totalPrice owner resolved)

/-! ## What a registration computes -/

/-- Everything `register` computes when it does not raise. -/
structure RegisterRun (M : Machine) (K : Constants) (truth solution : Clvm) where
  t : XchandlesStateTruth
  s : RegisterSolution
  truth_eq : truth = t.toClvm
  solution_eq : solution = s.toClvm
  priced : HandlePricingOutput
  runs_pricing : runPricing M s.handlePricing.puzzle s.handlePricing.solution.toClvm = some priced
  handleHash : Bytes
  left : Bytes
  right : Bytes
  catMakerHash : Bytes
  pricingHash : Bytes
  handleHash_eq : s.handleHash = .atom handleHash
  left_eq : s.leftValue = .atom left
  right_eq : s.rightValue = .atom right
  hashes_handle : M.hash.treeHashAtom s.handlePricing.solution.handle = some handleHash
  fresh : s.handlePricing.solution.currentExpiration = .nil
  above_left : left < handleHash
  below_right : handleHash < right
  catMaker_eq : t.state.catMakerPuzzleHash = .atom catMakerHash
  hashes_catMaker : M.hash.treeHash s.catMaker.puzzle = some catMakerHash
  pricing_eq : t.state.pricingPuzzleHash = .atom pricingHash
  hashes_pricing : M.hash.treeHash s.handlePricing.puzzle = some pricingHash
  inner : Bytes
  hashes_inner : precommitInnerPuzzleHash M.hash K s.other.refundPuzzleHashHash
    (s.precommitValue t.state) = some inner
  precommitCoin : Bytes
  runs_catMaker : runCatMaker M s.catMaker.puzzle inner s.catMaker.solution = some precommitCoin
  owner : Bytes
  hashes_owner : singletonPuzzleHash M.hash K s.other.newRest.ownerLauncherId
    s.ownerInnerPuzzleHash = some owner
  resolved : Bytes
  hashes_resolved : singletonPuzzleHash M.hash K s.other.newRest.resolvedLauncherId
    s.resolvedInnerPuzzleHash = some resolved
  expiration : Clvm
  expiration_eq : s.handlePricing.solution.buyTime.add priced.registeredTime = some expiration
  leftCounter : Bytes
  leftCounter_eq : s.left.thisCounter = .atom leftCounter
  rightCounter : Bytes
  rightCounter_eq : s.right.thisCounter = .atom rightCounter
  spentLeft : Bytes
  spends_left : M.hash.slotCoin K.handleSlot1stCurryHash
    (s.leftSlot (.atom leftCounter) (.atom right)) = some spentLeft
  spentRight : Bytes
  spends_right : M.hash.slotCoin K.handleSlot1stCurryHash
    (s.rightSlot (.atom rightCounter) (.atom left)) = some spentRight
  createdNew : Bytes
  creates_new : M.hash.slotCoin K.handleSlot1stCurryHash (s.newSlot expiration) = some createdNew
  createdLeft : Bytes
  creates_left : M.hash.slotCoin K.handleSlot1stCurryHash
    (s.leftSlot (.ofInt (intFromBytes leftCounter + 1)) (.atom handleHash)) = some createdLeft
  createdRight : Bytes
  creates_right : M.hash.slotCoin K.handleSlot1stCurryHash
    (s.rightSlot (.ofInt (intFromBytes rightCounter + 1)) (.atom handleHash)) = some createdRight

namespace RegisterRun

variable {M : Machine} {K : Constants} {truth solution : Clvm}

/-- The conditions of the registration. -/
def conditions (r : RegisterRun M K truth solution) : List Condition :=
  registerConditions r.s.handlePricing.solution.buyTime
    (spendCoin r.spentLeft) (spendCoin r.spentRight)
    (createHandleCoin K r.createdNew) (createHandleCoin K r.createdLeft)
    (createHandleCoin K r.createdRight) r.precommitCoin r.priced.totalPrice r.owner r.resolved

end RegisterRun

theorem register_eq_some {M : Machine} {K : Constants} {truth solution : Clvm}
    {out : Clvm × List Condition} :
    register M K truth solution = some out ↔
      ∃ r : RegisterRun M K truth solution, out = (truth, r.conditions) := by
  constructor
  · intro h
    obtain ⟨t, ht, h1⟩ := bind_elim h
    obtain ⟨s, hs, h2⟩ := bind_elim h1
    obtain ⟨priced, hpriced, h3⟩ := bind_elim h2
    obtain ⟨hh, hhash, h4⟩ := bind_elim h3
    obtain ⟨cm, hcm, h5⟩ := bind_elim h4
    obtain ⟨pp, hpp, h6⟩ := bind_elim h5
    obtain ⟨b1, hb1, h7⟩ := bind_elim h6
    obtain ⟨b2, hb2, h8⟩ := bind_elim h7
    obtain ⟨b3, hb3, h9⟩ := bind_elim h8
    obtain ⟨b4, hb4, h10⟩ := bind_elim h9
    obtain ⟨b5, hb5, h11⟩ := bind_elim h10
    obtain ⟨_, hassert, h12⟩ := bind_elim h11
    obtain ⟨inner, hinner, h13⟩ := bind_elim h12
    obtain ⟨ph, hph, h14⟩ := bind_elim h13
    obtain ⟨owner, howner, h15⟩ := bind_elim h14
    obtain ⟨resolved, hresolved, h16⟩ := bind_elim h15
    obtain ⟨sl, hsl, h17⟩ := bind_elim h16
    obtain ⟨sr, hsr, h18⟩ := bind_elim h17
    obtain ⟨expiration, hexp, h19⟩ := bind_elim h18
    obtain ⟨cn, hcn, h20⟩ := bind_elim h19
    obtain ⟨lc, hlc, h21⟩ := bind_elim h20
    obtain ⟨cl, hcl, h22⟩ := bind_elim h21
    obtain ⟨rc, hrc, h23⟩ := bind_elim h22
    obtain ⟨cr, hcr, h24⟩ := bind_elim h23
    -- the checks passed
    simp only [assertThat_eq_some, Bool.and_eq_true] at hassert
    obtain ⟨⟨⟨⟨⟨rfl, hfresh⟩, rfl⟩, rfl⟩, rfl⟩, rfl⟩ := hassert
    obtain ⟨_, hhandle, hhash'⟩ := Clvm.eq_eq_some_true.1 hb1
    obtain rfl := Clvm.atom.inj hhash'
    obtain ⟨_, L, hhandle', hL, hlt⟩ := Clvm.gtBytes_eq_some_true.1 hb2
    obtain rfl := Clvm.atom.inj (hhandle.symm.trans hhandle')
    obtain ⟨R, _, hR, hhandle', hlt'⟩ := Clvm.gtBytes_eq_some_true.1 hb3
    obtain rfl := Clvm.atom.inj (hhandle.symm.trans hhandle')
    obtain ⟨_, hcatMaker, hcm'⟩ := Clvm.eq_eq_some_true.1 hb4
    obtain rfl := Clvm.atom.inj hcm'
    obtain ⟨_, hpricing, hpp'⟩ := Clvm.eq_eq_some_true.1 hb5
    obtain rfl := Clvm.atom.inj hpp'
    -- the slots
    obtain ⟨spentLeft, hsl', rfl⟩ := spendHandle_eq_some.1 hsl
    obtain ⟨spentRight, hsr', rfl⟩ := spendHandle_eq_some.1 hsr
    obtain ⟨createdNew, hcn', rfl⟩ := createHandle_eq_some.1 hcn
    obtain ⟨createdLeft, hcl', rfl⟩ := createHandle_eq_some.1 hcl
    obtain ⟨createdRight, hcr', rfl⟩ := createHandle_eq_some.1 hcr
    obtain ⟨lcb, hlc', rfl⟩ := Clvm.increment_eq_some.1 hlc
    obtain ⟨rcb, hrc', rfl⟩ := Clvm.increment_eq_some.1 hrc
    rw [hlc', hR] at hsl'
    rw [hrc', hL] at hsr'
    rw [hhandle] at hcl' hcr'
    exact ⟨⟨t, s, XchandlesStateTruth.ofClvm?_eq_some.1 ht, RegisterSolution.ofClvm?_eq_some.1 hs,
      priced, hpriced, _, L, R, _, _, hhandle, hL, hR, hhash, Clvm.eq_nil_of_not_truthy hfresh, hlt,
      hlt', hcatMaker, hcm, hpricing, hpp, inner, hinner, ph, hph, owner, howner, resolved,
      hresolved, expiration, hexp, lcb, hlc', rcb, hrc', spentLeft, hsl', spentRight, hsr',
      createdNew, hcn', createdLeft, hcl', createdRight, hcr'⟩, (Option.some.inj h24).symm⟩
  · rintro ⟨r, rfl⟩
    have hassert : assertThat (true && !r.s.handlePricing.solution.currentExpiration.truthy && true
        && true && true && true) = some () := by
      rw [r.fresh]; rfl
    have hleft := r.spends_left
    have hright := r.spends_right
    have hleft' := r.creates_left
    have hright' := r.creates_right
    rw [← r.leftCounter_eq, ← r.right_eq] at hleft
    rw [← r.rightCounter_eq, ← r.left_eq] at hright
    rw [← r.handleHash_eq] at hleft' hright'
    refine bind_intro (XchandlesStateTruth.ofClvm?_eq_some.2 r.truth_eq) ?_
    refine bind_intro (RegisterSolution.ofClvm?_eq_some.2 r.solution_eq) ?_
    refine bind_intro r.runs_pricing ?_
    refine bind_intro r.hashes_handle ?_
    refine bind_intro r.hashes_catMaker ?_
    refine bind_intro r.hashes_pricing ?_
    refine bind_intro (a := true) (by rw [r.handleHash_eq, Clvm.eq_atom]) ?_
    refine bind_intro (a := true) (by
      rw [r.handleHash_eq, r.left_eq, Clvm.gtBytes_atom r.above_left]) ?_
    refine bind_intro (a := true) (by
      rw [r.handleHash_eq, r.right_eq, Clvm.gtBytes_atom r.below_right]) ?_
    refine bind_intro (a := true) (by rw [r.catMaker_eq, Clvm.eq_atom]) ?_
    refine bind_intro (a := true) (by rw [r.pricing_eq, Clvm.eq_atom]) ?_
    refine bind_intro hassert ?_
    refine bind_intro r.hashes_inner ?_
    refine bind_intro r.runs_catMaker ?_
    refine bind_intro r.hashes_owner ?_
    refine bind_intro r.hashes_resolved ?_
    refine bind_intro (spendHandle_eq_some.2 ⟨_, hleft, rfl⟩) ?_
    refine bind_intro (spendHandle_eq_some.2 ⟨_, hright, rfl⟩) ?_
    refine bind_intro r.expiration_eq ?_
    refine bind_intro (createHandle_eq_some.2 ⟨_, r.creates_new, rfl⟩) ?_
    refine bind_intro (by rw [r.leftCounter_eq, Clvm.increment_atom]) ?_
    refine bind_intro (createHandle_eq_some.2 ⟨_, hleft', rfl⟩) ?_
    refine bind_intro (by rw [r.rightCounter_eq, Clvm.increment_atom]) ?_
    exact bind_intro (createHandle_eq_some.2 ⟨_, hright', rfl⟩) rfl

/-! ## The slots of a registration -/

namespace RegisterRun

variable {M : Machine} {K : Constants} {truth solution : Clvm}
variable (r : RegisterRun M K truth solution)

/-- The neighbours come back, and the new slot goes between them. -/
def footprint : Footprint where
  moves := [
    (r.s.leftSlot (.atom r.leftCounter) (.atom r.right),
      r.s.leftSlot (.ofInt (intFromBytes r.leftCounter + 1)) (.atom r.handleHash)),
    (r.s.rightSlot (.atom r.rightCounter) (.atom r.left),
      r.s.rightSlot (.ofInt (intFromBytes r.rightCounter + 1)) (.atom r.handleHash))]
  inserted := [r.s.newSlot r.expiration]
  opened := []
  closed := []

theorem slotSpends_conditions : slotSpends r.conditions = r.spentLeft ::ₘ r.spentRight ::ₘ 0 := by
  rw [conditions, registerConditions]
  split <;> rfl

theorem zeroCoins_conditions :
    zeroCoins r.conditions = r.createdNew ::ₘ r.createdLeft ::ₘ r.createdRight ::ₘ 0 := by
  rw [conditions, registerConditions]
  split <;> rfl

/-- The only time that a registration asks for is the buy time. -/
theorem holds {info : BlockInfo}
    (hbuy : (Condition.assertSecondsAbsolute r.s.handlePricing.solution.buyTime).Holds info) :
    ∀ c ∈ r.conditions, c.Holds info := by
  intro c hc
  unfold conditions registerConditions at hc
  simp only [List.cons_append, List.nil_append, List.mem_cons, List.mem_ite_nil_left,
    List.not_mem_nil, or_false] at hc
  rcases hc with rfl | rfl | rfl | rfl | rfl | rfl | rfl | rfl | rfl | ⟨-, rfl⟩
  · exact hbuy
  all_goals simp [Condition.Holds, spendCoin, createHandleCoin, puzzlePuzzle, coinPuzzle]

theorem footprint_matches : r.footprint.Matches M.hash K r.conditions where
  consumed := by
    rw [slotSpends_conditions]
    exact (Represents.cons r.spends_right (represents_zero _)).cons r.spends_left
  created := by
    have horder : r.footprint.effect.created
        = Item.handle (r.s.newSlot r.expiration)
          ::ₘ Item.handle (r.s.leftSlot (.ofInt (intFromBytes r.leftCounter + 1))
            (.atom r.handleHash))
          ::ₘ Item.handle (r.s.rightSlot (.ofInt (intFromBytes r.rightCounter + 1))
            (.atom r.handleHash)) ::ₘ 0 :=
      Multiset.coe_eq_coe.2 (@List.perm_append_comm _ [_, _] [_])
    rw [zeroCoins_conditions, horder]
    exact ((Represents.cons r.creates_right (represents_zero _)).cons r.creates_left).cons
      r.creates_new

/-- A registration inserts the hash of its handle between its two neighbours. -/
theorem inserts_footprint : Inserts atoms r.handleHash r.footprint.nodeEffect := by
  refine ⟨r.left, r.right, r.s.left.thisThisValue, r.s.right.thisThisValue, r.above_left,
    r.below_right, ?_, ?_⟩
  · simp only [Footprint.nodeEffect, footprint, RegisterSolution.leftSlot,
      RegisterSolution.rightSlot, r.left_eq, r.right_eq, List.map_cons, List.map_nil,
      nodeOf_handleSlotWith]
    rfl
  · simp only [Footprint.nodeEffect, footprint, RegisterSolution.leftSlot,
      RegisterSolution.rightSlot, RegisterSolution.newSlot, r.left_eq, r.right_eq, r.handleHash_eq,
      List.map_cons, List.map_nil, nodeOf_handleSlotValue, nodeOf_handleSlotWith]
    exact Multiset.coe_eq_coe.2 (@List.perm_append_comm _ [_, _] [_])

theorem footprint_lawful : r.footprint.Lawful where
  bumps := by
    intro m hm
    rcases List.mem_pair.1 hm with rfl | rfl <;> exact isBump_handleSlotWith
  list := Or.inr ⟨r.handleHash, r.s.newSlot r.expiration, r.inserts_footprint, rfl, by
    rw [RegisterSolution.newSlot, keyOf_handleSlotValue, r.handleHash_eq]⟩

end RegisterRun

end SlotMachine.Xchandles
