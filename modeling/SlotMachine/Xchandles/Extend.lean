import SlotMachine.Xchandles.Footprint

/-!
# XCHandles: `extend` and `oracle`

Two actions anyone may take on a registered handle: `extend.rue` pays for more
time, `oracle.rue` announces the value of a slot.

* `extend`, `ExtendRun`, `extend_run` — an extension and what it computes.
* `oracle`, `OracleRun`, `oracle_run` — the same for an announcement.
* `ExtendRun.footprint`, `OracleRun.footprint` — one handle slot is rewritten.
-/

namespace SlotMachine.Xchandles

open Settlement

/-! ## `extend` -/

/-- The solution of `extend`. -/
structure ExtendSolution where
  handlePricing : HandlePricing
  counter : Clvm
  neighbors : Clvm
  restData : Clvm
  catMaker : CatMaker

namespace ExtendSolution

def toClvm (s : ExtendSolution) : Clvm :=
  .pair (.pair s.handlePricing.puzzle s.handlePricing.solution.toClvm)
    (.pair s.counter (.pair s.neighbors (.pair s.restData
      (.pair s.catMaker.puzzle s.catMaker.solution))))

def ofClvm? : Clvm → Option ExtendSolution
  | .pair (.pair pp (.pair bt (.pair ce (.pair handle rest)))) (.pair counter (.pair neighbors
      (.pair restData (.pair cm cms)))) =>
      some ⟨⟨pp, ⟨bt, ce, handle, rest⟩⟩, counter, neighbors, restData, ⟨cm, cms⟩⟩
  | _ => none

theorem ofClvm?_eq_some {v : Clvm} {s : ExtendSolution} : ofClvm? v = some s ↔ v = s.toClvm := by
  constructor
  · intro h
    unfold ofClvm? at h
    split at h
    · cases h; rfl
    · cases h
  · rintro rfl; rfl

/-- The slot of the handle with the given counter and expiration. -/
def slot (s : ExtendSolution) (handleHash : Bytes) (counter expiration : Clvm) : Clvm :=
  handleSlotValue counter (.atom handleHash) s.neighbors expiration s.restData

end ExtendSolution

/-- The notarized payment an extension asks for: the price goes to the payout
puzzle hash, under a nonce that names the handle and its expiration. -/
def extendPayment (K : Constants) (nonce : Bytes) (totalPrice : Clvm) : Clvm :=
  .pair (.atom nonce)
    (.pair (.pair (.atom K.payoutPuzzleHash)
      (.pair totalPrice (.pair (.pair (.atom K.payoutPuzzleHash) .nil) .nil))) .nil)

/-- The conditions of `extend`, from the hashes it computes. -/
def extendConditions (spend create : Condition) (announcement : Bytes)
    (currentExpiration buyTime : Clvm) (payment : Bytes) : List Condition :=
  [spend,
    .createPuzzleAnnouncement (.tagged 'e' announcement),
    -- can't extend if expired
    .assertBeforeSecondsAbsolute currentExpiration,
    .assertSecondsAbsolute buyTime,
    create,
    .assertPuzzleAnnouncement (.atom payment)]

/-- `extend.rue`. -/
def extend (M : Machine) (K : Constants) (truth solution : Clvm) :
    Option (Clvm × List Condition) := do
  let t ← XchandlesStateTruth.ofClvm? truth
  let s ← ExtendSolution.ofClvm? solution
  let pricing := s.handlePricing.solution
  let priced ← runPricing M s.handlePricing.puzzle pricing.toClvm
  let handleHash ← M.hash.treeHashAtom pricing.handle
  let offer ← runCatMaker M s.catMaker.puzzle K.offerModHash s.catMaker.solution
  let catMakerHash ← M.hash.treeHash s.catMaker.puzzle
  let catMakerMatches ← (Clvm.atom catMakerHash).eq t.state.catMakerPuzzleHash
  let pricingHash ← M.hash.treeHash s.handlePricing.puzzle
  let pricingMatches ← (Clvm.atom pricingHash).eq t.state.pricingPuzzleHash
  assertThat (catMakerMatches && pricingMatches)
  let spend ← spendHandle M.hash K (s.slot handleHash s.counter pricing.currentExpiration)
  let announcement ← M.hash.treeHash (.pair priced.totalPrice pricing.handle)
  let counter ← s.counter.increment
  let expiration ← pricing.currentExpiration.add priced.registeredTime
  let create ← createHandle M.hash K (s.slot handleHash counter expiration)
  let nonce ← M.hash.treeHash (.pair pricing.handle pricing.currentExpiration)
  let notarized ← M.hash.treeHash (extendPayment K nonce priced.totalPrice)
  let payment ← M.hash.hashAtoms [.atom offer, .atom notarized]
  return (truth, extendConditions spend create announcement pricing.currentExpiration
    pricing.buyTime payment)

/-- What an extension computes when it does not raise. -/
structure ExtendRun (M : Machine) (K : Constants) (truth solution : Clvm) where
  s : ExtendSolution
  solution_eq : solution = s.toClvm
  priced : HandlePricingOutput
  runs_pricing : runPricing M s.handlePricing.puzzle s.handlePricing.solution.toClvm = some priced
  handleHash : Bytes
  hashes_handle : M.hash.treeHashAtom s.handlePricing.solution.handle = some handleHash
  counter : Bytes
  counter_eq : s.counter = .atom counter
  spent : Bytes
  spends : M.hash.slotCoin K.handleSlot1stCurryHash
    (s.slot handleHash (.atom counter) s.handlePricing.solution.currentExpiration) = some spent
  expiration : Clvm
  expiration_eq : s.handlePricing.solution.currentExpiration.add priced.registeredTime
    = some expiration
  created : Bytes
  creates : M.hash.slotCoin K.handleSlot1stCurryHash
    (s.slot handleHash (.ofInt (intFromBytes counter + 1)) expiration) = some created
  announcement : Bytes
  payment : Bytes

/-- The conditions of the extension. -/
def ExtendRun.conditions {M : Machine} {K : Constants} {truth solution : Clvm}
    (r : ExtendRun M K truth solution) : List Condition :=
  extendConditions (spendCoin r.spent) (createHandleCoin K r.created) r.announcement
    r.s.handlePricing.solution.currentExpiration r.s.handlePricing.solution.buyTime r.payment

theorem extend_run {M : Machine} {K : Constants} {truth solution : Clvm}
    {out : Clvm × List Condition} (h : extend M K truth solution = some out) :
    ∃ r : ExtendRun M K truth solution, out = (truth, r.conditions) := by
  obtain ⟨t, ht, h1⟩ := bind_elim h
  obtain ⟨s, hs, h2⟩ := bind_elim h1
  obtain ⟨priced, hpriced, h3⟩ := bind_elim h2
  obtain ⟨hh, hhash, h4⟩ := bind_elim h3
  obtain ⟨offer, hoffer, h5⟩ := bind_elim h4
  obtain ⟨cm, hcm, h6⟩ := bind_elim h5
  obtain ⟨b1, hb1, h7⟩ := bind_elim h6
  obtain ⟨pp, hpp, h8⟩ := bind_elim h7
  obtain ⟨b2, hb2, h9⟩ := bind_elim h8
  obtain ⟨_, hassert, h10⟩ := bind_elim h9
  obtain ⟨spend, hspend, h11⟩ := bind_elim h10
  obtain ⟨announcement, hannouncement, h12⟩ := bind_elim h11
  obtain ⟨counter, hcounter, h13⟩ := bind_elim h12
  obtain ⟨expiration, hexp, h14⟩ := bind_elim h13
  obtain ⟨create, hcreate, h15⟩ := bind_elim h14
  obtain ⟨nonce, hnonce, h16⟩ := bind_elim h15
  obtain ⟨notarized, hnotarized, h17⟩ := bind_elim h16
  obtain ⟨payment, hpayment, h18⟩ := bind_elim h17
  obtain ⟨spent, hspent, rfl⟩ := spendHandle_eq_some.1 hspend
  obtain ⟨created, hcreated, rfl⟩ := createHandle_eq_some.1 hcreate
  obtain ⟨c, hc, rfl⟩ := Clvm.increment_eq_some.1 hcounter
  rw [hc] at hspent
  exact ⟨⟨s, ExtendSolution.ofClvm?_eq_some.1 hs, priced, hpriced, hh, hhash, c, hc, spent, hspent,
    expiration, hexp, created, hcreated, announcement, payment⟩, (Option.some.inj h18).symm⟩

namespace ExtendRun

variable {M : Machine} {K : Constants} {truth solution : Clvm}
variable (r : ExtendRun M K truth solution)

/-- The slot before the extension. -/
def before : Clvm :=
  r.s.slot r.handleHash (.atom r.counter) r.s.handlePricing.solution.currentExpiration

/-- The slot after it. -/
def after : Clvm := r.s.slot r.handleHash (.ofInt (intFromBytes r.counter + 1)) r.expiration

/-- The slot of the handle is rewritten. -/
def footprint : Footprint := rewriting r.before r.after

theorem footprint_matches : r.footprint.Matches M.hash K r.conditions :=
  rewriting_matches r.spends r.creates rfl rfl

theorem footprint_lawful : r.footprint.Lawful :=
  Footprint.lawful_of_place isBump_handleSlotValue (nodeOf_congr ..) [] []

end ExtendRun

/-! ## `oracle` -/

/-- `oracle.rue`, whose solution is the value of the slot. -/
def oracle (M : Machine) (K : Constants) (truth solution : Clvm) :
    Option (Clvm × List Condition) := do
  -- `a` and `b` are copied as one tree
  let (counter, ab) ← solution.uncons
  let spentSlotValueHash ← M.hash.treeHash solution
  let spend ← spendHandle M.hash K solution
  let next ← counter.increment
  let create ← createHandle M.hash K (.pair next ab)
  return (truth, [spend, create, .createPuzzleAnnouncement (.tagged 'o' spentSlotValueHash)])

/-- What an announcement computes when it does not raise. -/
structure OracleRun (M : Machine) (K : Constants) (solution : Clvm) where
  counter : Bytes
  ab : Clvm
  solution_eq : solution = .pair (.atom counter) ab
  spent : Bytes
  spends : M.hash.slotCoin K.handleSlot1stCurryHash (.pair (.atom counter) ab) = some spent
  created : Bytes
  creates : M.hash.slotCoin K.handleSlot1stCurryHash
    (.pair (.ofInt (intFromBytes counter + 1)) ab) = some created
  announcement : Bytes
  hashes : M.hash.treeHash solution = some announcement

/-- The conditions of the announcement. -/
def OracleRun.conditions {M : Machine} {K : Constants} {solution : Clvm}
    (r : OracleRun M K solution) : List Condition :=
  [spendCoin r.spent, createHandleCoin K r.created,
    .createPuzzleAnnouncement (.tagged 'o' r.announcement)]

theorem oracle_eq_some {M : Machine} {K : Constants} {truth solution : Clvm}
    {out : Clvm × List Condition} :
    oracle M K truth solution = some out ↔
      ∃ r : OracleRun M K solution, out = (truth, r.conditions) := by
  constructor
  · intro h
    obtain ⟨⟨counter, ab⟩, hsolution, h1⟩ := bind_elim h
    obtain ⟨d, hd, h2⟩ := bind_elim h1
    obtain ⟨spend, hspend, h3⟩ := bind_elim h2
    obtain ⟨next, hnext, h4⟩ := bind_elim h3
    obtain ⟨create, hcreate, h5⟩ := bind_elim h4
    obtain rfl := Clvm.uncons_eq_some.1 hsolution
    obtain ⟨spent, hspent, rfl⟩ := spendHandle_eq_some.1 hspend
    obtain ⟨created, hcreated, rfl⟩ := createHandle_eq_some.1 hcreate
    obtain ⟨c, rfl, rfl⟩ := Clvm.increment_eq_some.1 hnext
    exact ⟨⟨c, ab, rfl, spent, hspent, created, hcreated, d, hd⟩, (Option.some.inj h5).symm⟩
  · rintro ⟨r, rfl⟩
    have hspent := r.spends
    rw [← r.solution_eq] at hspent
    refine bind_intro (by rw [r.solution_eq]; rfl) ?_
    refine bind_intro r.hashes ?_
    refine bind_intro (spendHandle_eq_some.2 ⟨_, hspent, rfl⟩) ?_
    refine bind_intro (Clvm.increment_atom _) ?_
    exact bind_intro (createHandle_eq_some.2 ⟨_, r.creates, rfl⟩) rfl

/-- A slot of which only the counter changes is bumped, and keeps its place. -/
theorem isBump_of_counter {c : Bytes} {ab : Clvm} :
    IsBump (.pair (.atom c) ab, .pair (.ofInt (intFromBytes c + 1)) ab) where
  parts := ⟨c, ab, ab, rfl, rfl⟩
  key := by rcases ab with _ | ⟨_ | _, _⟩ <;> rfl

theorem nodeOf_counter_congr (c c' ab : Clvm) : nodeOf (.pair c ab) = nodeOf (.pair c' ab) := by
  rcases ab with _ | ⟨_ | ⟨k, _ | ⟨l, r⟩⟩, b⟩ <;> rfl

namespace OracleRun

variable {M : Machine} {K : Constants} {solution : Clvm} (r : OracleRun M K solution)

/-- The slot before the announcement. -/
def before : Clvm := .pair (.atom r.counter) r.ab

/-- The slot after it. -/
def after : Clvm := .pair (.ofInt (intFromBytes r.counter + 1)) r.ab

/-- The slot is rewritten with the next counter. -/
def footprint : Footprint := rewriting r.before r.after

theorem footprint_matches : r.footprint.Matches M.hash K r.conditions :=
  rewriting_matches r.spends r.creates rfl rfl

theorem footprint_lawful : r.footprint.Lawful :=
  Footprint.lawful_of_place isBump_of_counter (nodeOf_counter_congr ..) [] []

end OracleRun

end SlotMachine.Xchandles
