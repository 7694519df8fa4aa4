import SlotMachine.Xchandles.Extend

/-!
# XCHandles: `refund`

`refund.rue` returns the value of a precommit coin that cannot be used.  The
solution reveals what the coin commits to, and the programs; if nothing is wrong
with the coin, it also has to name the slot of the handle, which must be live
and not expired.

* `refund` — the action, with its three questions `slotIsOfHandle`,
  `looksValid` and `keepSlot`.
* `RefundRun`, `refund_eq_some` — what a refund computes.
* `RefundRun.footprint` — a slot that was named is rewritten.
-/

namespace SlotMachine.Xchandles

open Settlement

/-- `PrecommittedPricing` and `PrecommittedCatMaker`: a program with the hash
that was committed to. -/
structure Precommitted (α : Type) where
  puzzleHash : Clvm
  puzzle : Clvm
  solution : α

/-- The solution of `refund`. -/
structure RefundSolution where
  pricing : Precommitted HandlePricingSolution
  catMaker : Precommitted Clvm
  handle : Clvm
  precommitAmount : Clvm
  slotValue : Clvm
  newRest : Clvm
  refundPuzzleHashHash : Clvm
  secret : Clvm

namespace RefundSolution

def toClvm (s : RefundSolution) : Clvm :=
  .pair (.pair s.pricing.puzzleHash (.pair s.pricing.puzzle s.pricing.solution.toClvm))
    (.pair (.pair s.catMaker.puzzleHash (.pair s.catMaker.puzzle s.catMaker.solution))
      (.pair s.handle (.pair s.precommitAmount (.pair s.slotValue
        (.pair s.newRest (.pair s.refundPuzzleHashHash s.secret))))))

def ofClvm? : Clvm → Option RefundSolution
  | .pair (.pair pph (.pair pp (.pair bt (.pair ce (.pair h rest)))))
      (.pair (.pair cmh (.pair cm cms)) (.pair handle (.pair amount (.pair slotValue
        (.pair newRest (.pair rph secret)))))) =>
      some ⟨⟨pph, pp, ⟨bt, ce, h, rest⟩⟩, ⟨cmh, cm, cms⟩, handle, amount, slotValue, newRest, rph,
        secret⟩
  | _ => none

theorem ofClvm?_eq_some {v : Clvm} {s : RefundSolution} : ofClvm? v = some s ↔ v = s.toClvm := by
  constructor
  · intro h
    unfold ofClvm? at h
    split at h
    · cases h; rfl
    · cases h
  · rintro rfl; rfl

theorem toClvm_injective : Function.Injective toClvm := fun _ _ h =>
  Option.some.inj ((ofClvm?_eq_some.2 rfl).symm.trans (ofClvm?_eq_some.2 h))

/-- The value the revealed precommit coin has to commit to. -/
def precommitValue (s : RefundSolution) : PrecommitValue where
  catMakerHash := s.catMaker.puzzleHash
  catMakerSolution := s.catMaker.solution
  pricingHash := s.pricing.puzzleHash
  pricingSolution := s.pricing.solution.toClvm
  handle := s.handle
  secret := s.secret
  data := s.newRest

end RefundSolution

/-! ## The action -/

/-- `correct_slot`: no slot was named, or one of the handle. -/
def slotIsOfHandle (H : HashOracle) (handle slotValue : Clvm) : Option Bool :=
  if slotValue = .nil then some true
  else do
    let handleHash ← H.treeHashAtom handle
    let key ← keyOf slotValue
    (Clvm.atom handleHash).eq key

/-- Not (a), not (c) and not (b): all operands are evaluated. -/
def looksValid (state : XchandlesState) (s : RefundSolution) (totalPrice : Clvm) : Option Bool := do
  let catMakerMatches ← state.catMakerPuzzleHash.eq s.catMaker.puzzleHash
  let handleMatches ← s.handle.eq s.pricing.solution.handle
  let isPricing ← s.pricing.puzzleHash.eq state.pricingPuzzleHash
  let isExpiredPricing ← s.pricing.puzzleHash.eq state.expiredHandlePricingPuzzleHash
  let amountMatches ← s.precommitAmount.eq totalPrice
  return catMakerMatches && handleMatches && (isPricing || isExpiredPricing) && amountMatches

/-- Check (d): the slot of the handle is live, and not expired. -/
def keepSlot (H : HashOracle) (K : Constants) : Clvm → Option (List Condition)
  | .pair counter (.pair a (.pair expiration data)) => do
      let spend ← spendHandle H K (.pair counter (.pair a (.pair expiration data)))
      let next ← counter.increment
      let create ← createHandle H K (.pair next (.pair a (.pair expiration data)))
      return [.assertBeforeSecondsAbsolute expiration, spend, create]
  | _ => none

/-- `last_conds`: check (d) is made only if the coin looks valid after (a), (b) and (c). -/
def lastConditions (H : HashOracle) (K : Constants) (valid : Bool) (slotValue : Clvm) :
    Option (List Condition) :=
  if valid then keepSlot H K slotValue else some []

/-- The conditions of `refund`. -/
def refundConditions (precommitCoin : Bytes) (precommitAmount : Clvm) (last : List Condition) :
    List Condition :=
  .sendMessage puzzlePuzzleAmount .nil [.atom precommitCoin, precommitAmount]
    :: .createPuzzleAnnouncement (.tagged '$' precommitCoin) :: last

/-- `refund.rue`. -/
def refund (M : Machine) (K : Constants) (truth solution : Clvm) :
    Option (Clvm × List Condition) := do
  let t ← XchandlesStateTruth.ofClvm? truth
  let s ← RefundSolution.ofClvm? solution
  let correctSlot ← slotIsOfHandle M.hash s.handle s.slotValue
  let catMakerHash ← M.hash.treeHash s.catMaker.puzzle
  let catMakerMatches ← s.catMaker.puzzleHash.eq (.atom catMakerHash)
  let pricingHash ← M.hash.treeHash s.pricing.puzzle
  let pricingMatches ← s.pricing.puzzleHash.eq (.atom pricingHash)
  assertThat (catMakerMatches && pricingMatches && correctSlot)
  let inner ← precommitInnerPuzzleHash M.hash K s.refundPuzzleHashHash s.precommitValue
  let precommitCoin ← runCatMaker M s.catMaker.puzzle inner s.catMaker.solution
  let priced ← runPricing M s.pricing.puzzle s.pricing.solution.toClvm
  let valid ← looksValid t.state s priced.totalPrice
  let last ← lastConditions M.hash K valid s.slotValue
  return (truth, refundConditions precommitCoin s.precommitAmount last)

/-! ## What a refund computes -/

/-- Everything `refund` computes when it does not raise. -/
structure RefundRun (M : Machine) (K : Constants) (truth solution : Clvm) where
  t : XchandlesStateTruth
  s : RefundSolution
  truth_eq : truth = t.toClvm
  solution_eq : solution = s.toClvm
  correct : slotIsOfHandle M.hash s.handle s.slotValue = some true
  catMakerHash : Bytes
  catMaker_eq : s.catMaker.puzzleHash = .atom catMakerHash
  hashes_catMaker : M.hash.treeHash s.catMaker.puzzle = some catMakerHash
  pricingHash : Bytes
  pricing_eq : s.pricing.puzzleHash = .atom pricingHash
  hashes_pricing : M.hash.treeHash s.pricing.puzzle = some pricingHash
  inner : Bytes
  hashes_inner : precommitInnerPuzzleHash M.hash K s.refundPuzzleHashHash s.precommitValue
    = some inner
  precommitCoin : Bytes
  runs_catMaker : runCatMaker M s.catMaker.puzzle inner s.catMaker.solution = some precommitCoin
  priced : HandlePricingOutput
  runs_pricing : runPricing M s.pricing.puzzle s.pricing.solution.toClvm = some priced
  valid : Bool
  valid_eq : looksValid t.state s priced.totalPrice = some valid
  last : List Condition
  last_eq : lastConditions M.hash K valid s.slotValue = some last

/-- The conditions of the refund. -/
def RefundRun.conditions {M : Machine} {K : Constants} {truth solution : Clvm}
    (r : RefundRun M K truth solution) : List Condition :=
  refundConditions r.precommitCoin r.s.precommitAmount r.last

theorem refund_eq_some {M : Machine} {K : Constants} {truth solution : Clvm}
    {out : Clvm × List Condition} :
    refund M K truth solution = some out ↔
      ∃ r : RefundRun M K truth solution, out = (truth, r.conditions) := by
  constructor
  · intro h
    obtain ⟨t, ht, h1⟩ := bind_elim h
    obtain ⟨s, hs, h2⟩ := bind_elim h1
    obtain ⟨correct, hcorrect, h3⟩ := bind_elim h2
    obtain ⟨cm, hcm, h4⟩ := bind_elim h3
    obtain ⟨b1, hb1, h5⟩ := bind_elim h4
    obtain ⟨pp, hpp, h6⟩ := bind_elim h5
    obtain ⟨b2, hb2, h7⟩ := bind_elim h6
    obtain ⟨_, hassert, h8⟩ := bind_elim h7
    obtain ⟨inner, hinner, h9⟩ := bind_elim h8
    obtain ⟨ph, hph, h10⟩ := bind_elim h9
    obtain ⟨priced, hpriced, h11⟩ := bind_elim h10
    obtain ⟨valid, hvalid, h12⟩ := bind_elim h11
    obtain ⟨last, hlast, h13⟩ := bind_elim h12
    simp only [assertThat_eq_some, Bool.and_eq_true] at hassert
    obtain ⟨⟨rfl, rfl⟩, rfl⟩ := hassert
    obtain ⟨_, hcatMaker, hcm'⟩ := Clvm.eq_eq_some_true.1 hb1
    obtain rfl := Clvm.atom.inj hcm'
    obtain ⟨_, hpricing, hpp'⟩ := Clvm.eq_eq_some_true.1 hb2
    obtain rfl := Clvm.atom.inj hpp'
    exact ⟨⟨t, s, XchandlesStateTruth.ofClvm?_eq_some.1 ht, RefundSolution.ofClvm?_eq_some.1 hs,
      hcorrect, _, hcatMaker, hcm, _, hpricing, hpp, inner, hinner, ph, hph, priced, hpriced, valid,
      hvalid, last, hlast⟩, (Option.some.inj h13).symm⟩
  · rintro ⟨r, rfl⟩
    refine bind_intro (XchandlesStateTruth.ofClvm?_eq_some.2 r.truth_eq) ?_
    refine bind_intro (RefundSolution.ofClvm?_eq_some.2 r.solution_eq) ?_
    refine bind_intro r.correct ?_
    refine bind_intro r.hashes_catMaker ?_
    refine bind_intro (a := true) (by rw [r.catMaker_eq, Clvm.eq_atom]) ?_
    refine bind_intro r.hashes_pricing ?_
    refine bind_intro (a := true) (by rw [r.pricing_eq, Clvm.eq_atom]) ?_
    refine bind_intro (a := ()) rfl ?_
    refine bind_intro r.hashes_inner ?_
    refine bind_intro r.runs_catMaker ?_
    refine bind_intro r.runs_pricing ?_
    refine bind_intro r.valid_eq ?_
    exact bind_intro r.last_eq rfl

/-! ## The three questions -/

/-- A coin looks valid if nothing is found wrong with it. -/
theorem eq_true_of_looksValid {state : XchandlesState} {s : RefundSolution} {price : Clvm}
    {valid : Bool} (h : looksValid state s price = some valid)
    (hmaker : state.catMakerPuzzleHash = s.catMaker.puzzleHash)
    (hhandle : s.handle = s.pricing.solution.handle)
    (hpricing : s.pricing.puzzleHash = state.pricingPuzzleHash ∨
      s.pricing.puzzleHash = state.expiredHandlePricingPuzzleHash)
    (hamount : s.precommitAmount = price) : valid = true := by
  have heq : ∀ {a b : Clvm} {r : Bool}, a.eq b = some r → a = b → r = true := by
    rintro a _ r hr rfl
    obtain ⟨x, y, rfl, hy, rfl⟩ := Clvm.eq_eq_some.1 hr
    rw [Clvm.atom.inj hy, decide_eq_true_eq]
  obtain ⟨b1, hb1, h1⟩ := bind_elim h
  obtain ⟨b2, hb2, h2⟩ := bind_elim h1
  obtain ⟨b3, hb3, h3⟩ := bind_elim h2
  obtain ⟨b4, hb4, h4⟩ := bind_elim h3
  obtain ⟨b5, hb5, h5⟩ := bind_elim h4
  have hor : (b3 || b4) = true := by
    rw [Bool.or_eq_true]
    exact hpricing.imp (heq hb3) (heq hb4)
  rw [← Option.some.inj h5, heq hb1 hmaker, heq hb2 hhandle, heq hb5 hamount, hor]
  rfl

/-- A slot that passes check (d) is spent, bumped and has not expired. -/
theorem keepSlot_eq_some {H : HashOracle} {K : Constants} {v : Clvm} {cs : List Condition} :
    keepSlot H K v = some cs ↔
      ∃ c a e d spent created, v = .pair (.atom c) (.pair a (.pair e d)) ∧
        H.slotCoin K.handleSlot1stCurryHash v = some spent ∧
        H.slotCoin K.handleSlot1stCurryHash
          (.pair (.ofInt (intFromBytes c + 1)) (.pair a (.pair e d))) = some created ∧
        cs = [.assertBeforeSecondsAbsolute e, spendCoin spent, createHandleCoin K created] := by
  constructor
  · intro h
    unfold keepSlot at h
    split at h
    · obtain ⟨spend, hspend, h1⟩ := bind_elim h
      obtain ⟨next, hnext, h2⟩ := bind_elim h1
      obtain ⟨create, hcreate, h3⟩ := bind_elim h2
      obtain ⟨spent, hspent, rfl⟩ := spendHandle_eq_some.1 hspend
      obtain ⟨created, hcreated, rfl⟩ := createHandle_eq_some.1 hcreate
      obtain ⟨c, rfl, rfl⟩ := Clvm.increment_eq_some.1 hnext
      exact ⟨c, _, _, _, spent, created, rfl, hspent, hcreated, (Option.some.inj h3).symm⟩
    · cases h
  · rintro ⟨c, a, e, d, spent, created, rfl, hspent, hcreated, rfl⟩
    refine bind_intro (spendHandle_eq_some.2 ⟨_, hspent, rfl⟩) ?_
    refine bind_intro (Clvm.increment_atom c) ?_
    exact bind_intro (createHandle_eq_some.2 ⟨_, hcreated, rfl⟩) rfl

/-- A slot that was named is one of the handle. -/
theorem keyOf_of_slotIsOfHandle {H : HashOracle} {handle v : Clvm}
    (h : slotIsOfHandle H handle v = some true) (hv : v ≠ .nil) :
    ∃ hh, H.treeHashAtom handle = some hh ∧ keyOf v = some (.atom hh) := by
  rw [slotIsOfHandle, if_neg hv] at h
  obtain ⟨hh, hhash, h1⟩ := bind_elim h
  obtain ⟨key, hkey, h2⟩ := bind_elim h1
  obtain ⟨x, hx, rfl⟩ := Clvm.eq_eq_some_true.1 h2
  rw [← hx] at hkey
  exact ⟨hh, hhash, hkey⟩

/-! ## The slots of a refund -/

namespace RefundRun

variable {M : Machine} {K : Constants} {truth solution : Clvm}
variable (r : RefundRun M K truth solution)

/-- What happens to the slot that was named. -/
def kept : Clvm → Clvm
  | .pair (.atom c) rest => .pair (.ofInt (intFromBytes c + 1)) rest
  | v => v

/-- The slot of the handle is bumped if the coin looks valid, and no slot is
touched otherwise. -/
def footprint : Footprint :=
  if r.valid then rewriting r.s.slotValue (kept r.s.slotValue) else ⟨[], [], [], []⟩

theorem footprint_matches : r.footprint.Matches M.hash K r.conditions := by
  have hlast := r.last_eq
  rw [footprint, conditions, refundConditions]
  cases hv : r.valid with
  | false =>
      rw [hv] at hlast
      rw [← Option.some.inj hlast]
      exact ⟨represents_zero _, represents_zero _⟩
  | true =>
      rw [hv] at hlast
      obtain ⟨c, a, e, d, spent, created, hslot, hspent, hcreated, h⟩ := keepSlot_eq_some.1 hlast
      rw [h]
      rw [hslot] at hspent ⊢
      exact rewriting_matches hspent hcreated rfl rfl

theorem footprint_lawful : r.footprint.Lawful := by
  have hlast := r.last_eq
  rw [footprint]
  cases hv : r.valid with
  | false => exact Footprint.lawful_empty
  | true =>
      rw [hv] at hlast
      obtain ⟨c, a, e, d, spent, created, hslot, -, -, -⟩ := keepSlot_eq_some.1 hlast
      rw [hslot]
      exact Footprint.lawful_of_place isBump_of_counter (nodeOf_counter_congr ..) [] []

end RefundRun

end SlotMachine.Xchandles
