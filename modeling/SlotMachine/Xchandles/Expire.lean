import SlotMachine.Xchandles.Footprint

/-!
# XCHandles: `expire`

`expire.rue` hands an expired handle to a new owner.  The price comes from the
second pricing puzzle of the state; the slot that is replaced has to carry the
expiration that was priced, and this expiration has to be in the past.

* `expire`, `ExpireRun`, `expire_eq_some` — the action and what it computes.
* `ExpireRun.footprint` — one handle slot is rewritten in its place.
-/

namespace SlotMachine.Xchandles

open Settlement

/-- The solution of `expire`. -/
structure ExpireSolution where
  pricing : HandlePricing
  catMaker : CatMaker
  other : OtherPrecommitData
  counter : Clvm
  neighbors : Clvm
  oldRest : Clvm
  newOwnerInnerPuzzleHash : Clvm
  newResolvedInnerPuzzleHash : Clvm

namespace ExpireSolution

def toClvm (s : ExpireSolution) : Clvm :=
  .pair (.pair s.pricing.puzzle s.pricing.solution.toClvm)
    (.pair (.pair s.catMaker.puzzle s.catMaker.solution)
      (.pair (.pair s.other.newRest.toClvm (.pair s.other.refundPuzzleHashHash s.other.secret))
        (.pair s.counter (.pair s.neighbors (.pair s.oldRest
          (.pair s.newOwnerInnerPuzzleHash s.newResolvedInnerPuzzleHash))))))

def ofClvm? : Clvm → Option ExpireSolution
  | .pair (.pair pp (.pair bt (.pair ce (.pair handle rest)))) (.pair (.pair cm cms)
      (.pair (.pair (.pair o r) (.pair rph secret)) (.pair counter (.pair neighbors
        (.pair oldRest (.pair op rp)))))) =>
      some ⟨⟨pp, ⟨bt, ce, handle, rest⟩⟩, ⟨cm, cms⟩, ⟨⟨o, r⟩, rph, secret⟩, counter, neighbors,
        oldRest, op, rp⟩
  | _ => none

theorem ofClvm?_eq_some {v : Clvm} {s : ExpireSolution} : ofClvm? v = some s ↔ v = s.toClvm := by
  constructor
  · intro h
    unfold ofClvm? at h
    split at h
    · cases h; rfl
    · cases h
  · rintro rfl; rfl

/-- The value the revealed precommit coin has to commit to. -/
def precommitValue (s : ExpireSolution) (state : XchandlesState) : PrecommitValue where
  catMakerHash := state.catMakerPuzzleHash
  catMakerSolution := s.catMaker.solution
  pricingHash := state.expiredHandlePricingPuzzleHash
  pricingSolution := s.pricing.solution.toClvm
  handle := s.pricing.solution.handle
  secret := s.other.secret
  data := s.other.newRest.toClvm

/-- The slot of the handle with the given counter, expiration and data. -/
def slot (s : ExpireSolution) (handleHash : Bytes) (counter expiration data : Clvm) : Clvm :=
  handleSlotValue counter (.atom handleHash) s.neighbors expiration data

end ExpireSolution

/-- The approval of the resolved singleton, which is needed unless it is the owner. -/
def expireResolvedApproval (H : HashOracle) (K : Constants) (data : HandleSlotData)
    (innerPuzzleHash : Clvm) (precommitCoin : Bytes) : Option (List Condition) := do
  let same ← data.ownerLauncherId.eq data.resolvedLauncherId
  if same then return []
  else do
    let resolved ← singletonPuzzleHash H K data.resolvedLauncherId innerPuzzleHash
    return [.receiveMessage puzzlePuzzle (.tagged 'f' precommitCoin) [.atom resolved]]

/-- The conditions of `expire`, from the hashes it computes. -/
def expireConditions (resolvedApproval : List Condition) (buyTime currentExpiration : Clvm)
    (spend create : Condition) (precommitCoin : Bytes) (totalPrice : Clvm) (owner : Bytes) :
    List Condition :=
  resolvedApproval ++
  [.assertSecondsAbsolute buyTime,
    -- the handle actually expired
    .assertSecondsAbsolute currentExpiration,
    spend,
    create,
    .sendMessage puzzlePuzzleAmount (.atom [1]) [.atom precommitCoin, totalPrice],
    .createPuzzleAnnouncement (.tagged 'x' precommitCoin),
    .receiveMessage puzzlePuzzle (.tagged 'e' precommitCoin) [.atom owner]]

/-- `expire.rue`. -/
def expire (M : Machine) (K : Constants) (truth solution : Clvm) :
    Option (Clvm × List Condition) := do
  let t ← XchandlesStateTruth.ofClvm? truth
  let s ← ExpireSolution.ofClvm? solution
  let pricing := s.pricing.solution
  let catMakerHash ← M.hash.treeHash s.catMaker.puzzle
  let catMakerMatches ← (Clvm.atom catMakerHash).eq t.state.catMakerPuzzleHash
  let pricingHash ← M.hash.treeHash s.pricing.puzzle
  let pricingMatches ← (Clvm.atom pricingHash).eq t.state.expiredHandlePricingPuzzleHash
  assertThat (catMakerMatches && pricingMatches)
  let handleHash ← M.hash.treeHashAtom pricing.handle
  let priced ← runPricing M s.pricing.puzzle pricing.toClvm
  let inner ← precommitInnerPuzzleHash M.hash K s.other.refundPuzzleHashHash
    (s.precommitValue t.state)
  let precommitCoin ← runCatMaker M s.catMaker.puzzle inner s.catMaker.solution
  let owner ← singletonPuzzleHash M.hash K s.other.newRest.ownerLauncherId
    s.newOwnerInnerPuzzleHash
  let spend ← spendHandle M.hash K (s.slot handleHash s.counter pricing.currentExpiration s.oldRest)
  let counter ← s.counter.increment
  let expiration ← priced.registeredTime.add pricing.buyTime
  let create ← createHandle M.hash K (s.slot handleHash counter expiration s.other.newRest.toClvm)
  let resolvedApproval ← expireResolvedApproval M.hash K s.other.newRest
    s.newResolvedInnerPuzzleHash precommitCoin
  return (truth, expireConditions resolvedApproval pricing.buyTime pricing.currentExpiration spend
    create precommitCoin priced.totalPrice owner)

/-! ## What an expiry computes -/

/-- Everything `expire` computes when it does not raise. -/
structure ExpireRun (M : Machine) (K : Constants) (truth solution : Clvm) where
  t : XchandlesStateTruth
  s : ExpireSolution
  truth_eq : truth = t.toClvm
  solution_eq : solution = s.toClvm
  catMakerHash : Bytes
  pricingHash : Bytes
  hashes_catMaker : M.hash.treeHash s.catMaker.puzzle = some catMakerHash
  catMaker_eq : t.state.catMakerPuzzleHash = .atom catMakerHash
  hashes_pricing : M.hash.treeHash s.pricing.puzzle = some pricingHash
  pricing_eq : t.state.expiredHandlePricingPuzzleHash = .atom pricingHash
  handleHash : Bytes
  hashes_handle : M.hash.treeHashAtom s.pricing.solution.handle = some handleHash
  priced : HandlePricingOutput
  runs_pricing : runPricing M s.pricing.puzzle s.pricing.solution.toClvm = some priced
  inner : Bytes
  hashes_inner : precommitInnerPuzzleHash M.hash K s.other.refundPuzzleHashHash
    (s.precommitValue t.state) = some inner
  precommitCoin : Bytes
  runs_catMaker : runCatMaker M s.catMaker.puzzle inner s.catMaker.solution = some precommitCoin
  owner : Bytes
  hashes_owner : singletonPuzzleHash M.hash K s.other.newRest.ownerLauncherId
    s.newOwnerInnerPuzzleHash = some owner
  counter : Bytes
  counter_eq : s.counter = .atom counter
  spent : Bytes
  spends : M.hash.slotCoin K.handleSlot1stCurryHash
    (s.slot handleHash (.atom counter) s.pricing.solution.currentExpiration s.oldRest) = some spent
  expiration : Clvm
  expiration_eq : priced.registeredTime.add s.pricing.solution.buyTime = some expiration
  created : Bytes
  creates : M.hash.slotCoin K.handleSlot1stCurryHash
    (s.slot handleHash (.ofInt (intFromBytes counter + 1)) expiration s.other.newRest.toClvm)
      = some created
  resolvedApproval : List Condition
  approves : expireResolvedApproval M.hash K s.other.newRest s.newResolvedInnerPuzzleHash
    precommitCoin = some resolvedApproval

namespace ExpireRun

variable {M : Machine} {K : Constants} {truth solution : Clvm}

/-- The conditions of the expiry. -/
def conditions (r : ExpireRun M K truth solution) : List Condition :=
  expireConditions r.resolvedApproval r.s.pricing.solution.buyTime
    r.s.pricing.solution.currentExpiration (spendCoin r.spent) (createHandleCoin K r.created)
    r.precommitCoin r.priced.totalPrice r.owner

end ExpireRun

theorem expire_eq_some {M : Machine} {K : Constants} {truth solution : Clvm}
    {out : Clvm × List Condition} :
    expire M K truth solution = some out ↔
      ∃ r : ExpireRun M K truth solution, out = (truth, r.conditions) := by
  constructor
  · intro h
    obtain ⟨t, ht, h1⟩ := bind_elim h
    obtain ⟨s, hs, h2⟩ := bind_elim h1
    obtain ⟨cm, hcm, h3⟩ := bind_elim h2
    obtain ⟨b1, hb1, h4⟩ := bind_elim h3
    obtain ⟨pp, hpp, h5⟩ := bind_elim h4
    obtain ⟨b2, hb2, h6⟩ := bind_elim h5
    obtain ⟨_, hassert, h7⟩ := bind_elim h6
    obtain ⟨hh, hhash, h8⟩ := bind_elim h7
    obtain ⟨priced, hpriced, h9⟩ := bind_elim h8
    obtain ⟨inner, hinner, h10⟩ := bind_elim h9
    obtain ⟨ph, hph, h11⟩ := bind_elim h10
    obtain ⟨owner, howner, h12⟩ := bind_elim h11
    obtain ⟨spend, hspend, h13⟩ := bind_elim h12
    obtain ⟨counter, hcounter, h14⟩ := bind_elim h13
    obtain ⟨expiration, hexp, h15⟩ := bind_elim h14
    obtain ⟨create, hcreate, h16⟩ := bind_elim h15
    obtain ⟨approval, happroval, h17⟩ := bind_elim h16
    -- the checks passed
    simp only [assertThat_eq_some, Bool.and_eq_true] at hassert
    obtain ⟨rfl, rfl⟩ := hassert
    obtain ⟨_, hcm', hcatMaker⟩ := Clvm.eq_eq_some_true.1 hb1
    obtain rfl := Clvm.atom.inj hcm'
    obtain ⟨_, hpp', hpricing⟩ := Clvm.eq_eq_some_true.1 hb2
    obtain rfl := Clvm.atom.inj hpp'
    -- the slots
    obtain ⟨spent, hspent, rfl⟩ := spendHandle_eq_some.1 hspend
    obtain ⟨created, hcreated, rfl⟩ := createHandle_eq_some.1 hcreate
    obtain ⟨c, hc, rfl⟩ := Clvm.increment_eq_some.1 hcounter
    rw [hc] at hspent
    exact ⟨⟨t, s, XchandlesStateTruth.ofClvm?_eq_some.1 ht, ExpireSolution.ofClvm?_eq_some.1 hs,
      _, _, hcm, hcatMaker, hpp, hpricing, hh, hhash, priced, hpriced, inner, hinner, ph, hph, owner,
      howner, c, hc, spent, hspent, expiration, hexp, created, hcreated, approval, happroval⟩,
      (Option.some.inj h17).symm⟩
  · rintro ⟨r, rfl⟩
    have hspent := r.spends
    rw [← r.counter_eq] at hspent
    refine bind_intro (XchandlesStateTruth.ofClvm?_eq_some.2 r.truth_eq) ?_
    refine bind_intro (ExpireSolution.ofClvm?_eq_some.2 r.solution_eq) ?_
    refine bind_intro r.hashes_catMaker ?_
    refine bind_intro (a := true) (by rw [r.catMaker_eq, Clvm.eq_atom]) ?_
    refine bind_intro r.hashes_pricing ?_
    refine bind_intro (a := true) (by rw [r.pricing_eq, Clvm.eq_atom]) ?_
    refine bind_intro (a := ()) rfl ?_
    refine bind_intro r.hashes_handle ?_
    refine bind_intro r.runs_pricing ?_
    refine bind_intro r.hashes_inner ?_
    refine bind_intro r.runs_catMaker ?_
    refine bind_intro r.hashes_owner ?_
    refine bind_intro (spendHandle_eq_some.2 ⟨_, hspent, rfl⟩) ?_
    refine bind_intro (by rw [r.counter_eq, Clvm.increment_atom]) ?_
    refine bind_intro r.expiration_eq ?_
    refine bind_intro (createHandle_eq_some.2 ⟨_, r.creates, rfl⟩) ?_
    exact bind_intro r.approves rfl

/-- The approval of the resolved singleton is nothing or one message. -/
theorem expireResolvedApproval_eq_some {H : HashOracle} {K : Constants} {data : HandleSlotData}
    {inner : Clvm} {coin : Bytes} {cs : List Condition}
    (h : expireResolvedApproval H K data inner coin = some cs) :
    cs = [] ∨ ∃ resolved, singletonPuzzleHash H K data.resolvedLauncherId inner = some resolved ∧
      cs = [.receiveMessage puzzlePuzzle (.tagged 'f' coin) [.atom resolved]] := by
  obtain ⟨same, -, h1⟩ := bind_elim h
  cases same with
  | true => exact Or.inl (Option.some.inj h1).symm
  | false =>
      obtain ⟨resolved, hresolved, h2⟩ := bind_elim h1
      exact Or.inr ⟨resolved, hresolved, (Option.some.inj h2).symm⟩

/-! ## The slots of an expiry -/

namespace ExpireRun

variable {M : Machine} {K : Constants} {truth solution : Clvm}
variable (r : ExpireRun M K truth solution)

/-- The slot before the expiry. -/
def before : Clvm :=
  r.s.slot r.handleHash (.atom r.counter) r.s.pricing.solution.currentExpiration r.s.oldRest

/-- The slot after it. -/
def after : Clvm :=
  r.s.slot r.handleHash (.ofInt (intFromBytes r.counter + 1)) r.expiration
    r.s.other.newRest.toClvm

/-- The slot of the handle is rewritten. -/
def footprint : Footprint := rewriting r.before r.after

theorem slotSpends_conditions : slotSpends r.conditions = {r.spent} := by
  rcases expireResolvedApproval_eq_some r.approves with h | ⟨resolved, -, h⟩ <;>
    rw [conditions, expireConditions, h] <;> rfl

theorem zeroCoins_conditions : zeroCoins r.conditions = {r.created} := by
  rcases expireResolvedApproval_eq_some r.approves with h | ⟨resolved, -, h⟩ <;>
    rw [conditions, expireConditions, h] <;> rfl

/-- An expiry asks for the buy time and for the end of the handle's time. -/
theorem holds {info : BlockInfo}
    (hbuy : (Condition.assertSecondsAbsolute r.s.pricing.solution.buyTime).Holds info)
    (hpast : (Condition.assertSecondsAbsolute r.s.pricing.solution.currentExpiration).Holds info) :
    ∀ c ∈ r.conditions, c.Holds info := by
  intro c hc
  unfold conditions expireConditions at hc
  rcases List.mem_append.1 hc with hc | hc
  · rcases expireResolvedApproval_eq_some r.approves with h | ⟨y, -, h⟩
    · rw [h] at hc
      exact absurd hc List.not_mem_nil
    · rw [h, List.mem_singleton] at hc
      rw [hc]
      simp [Condition.Holds, puzzlePuzzle, coinPuzzle]
  · simp only [List.mem_cons, List.not_mem_nil, or_false] at hc
    rcases hc with rfl | rfl | rfl | rfl | rfl | rfl | rfl
    · exact hbuy
    · exact hpast
    all_goals simp [Condition.Holds, spendCoin, createHandleCoin, puzzlePuzzle, coinPuzzle]

theorem footprint_matches : r.footprint.Matches M.hash K r.conditions :=
  rewriting_matches r.spends r.creates r.slotSpends_conditions r.zeroCoins_conditions

theorem footprint_lawful : r.footprint.Lawful :=
  Footprint.lawful_of_place isBump_handleSlotValue (nodeOf_congr ..) [] []

end ExpireRun

end SlotMachine.Xchandles
