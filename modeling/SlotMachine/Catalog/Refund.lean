import SlotMachine.Catalog.Footprint

/-!
# CATalog: `refund`

`refund.rue` returns the value of a precommit coin that cannot be used.  The
solution reveals what the coin commits to.  If the CAT maker is the state's and
the amount is the price, the TAIL has to be registered: its slot is spent, and
created again with the next counter.

* `refund` — the action.
* `RefundRun`, `refund_eq_some` — what a refund computes.
* `RefundRun.footprint` — the slot of the TAIL is bumped if the coin looks valid.
-/

namespace SlotMachine.Catalog

open Settlement SortedList

/-- The solution of `refund`.  `neighbors` and `counter` are looked for only if a slot has
to be spent, so what they are taken from stays one tree. -/
structure RefundSolution where
  catMaker : CatMaker
  other : OtherPrecommitData
  precommitAmount : Clvm
  neighborsAndCounter : Clvm

namespace RefundSolution

def toClvm (s : RefundSolution) : Clvm :=
  .pair (.pair s.catMaker.puzzle s.catMaker.solution)
    (.pair s.other.toClvm (.pair s.precommitAmount s.neighborsAndCounter))

def ofClvm? : Clvm → Option RefundSolution
  | .pair (.pair cm cms) (.pair (.pair tail (.pair owner refund)) (.pair amount rest)) =>
      some ⟨⟨cm, cms⟩, ⟨tail, owner, refund⟩, amount, rest⟩
  | _ => none

theorem ofClvm?_eq_some {v : Clvm} {s : RefundSolution} : ofClvm? v = some s ↔ v = s.toClvm := by
  constructor
  · intro h
    unfold ofClvm? at h
    split at h
    · cases h; rfl
    · cases h
  · rintro rfl; rfl

theorem toClvm_injective : Function.Injective toClvm := fun _ _ h =>
  Option.some.inj ((ofClvm?_eq_some.2 rfl).symm.trans (ofClvm?_eq_some.2 h))

/-- What the revealed precommit coin has to commit to. -/
def opening (s : RefundSolution) (catMakerHash : Bytes) : Opening :=
  ⟨s.other, .atom catMakerHash, s.catMaker.solution⟩

/-- The slot of the TAIL, with a counter. -/
def slot (s : RefundSolution) (neighbors counter : Clvm) : Clvm :=
  .pair counter (.pair s.other.tailHash neighbors)

end RefundSolution

/-! ## The action -/

/-- The coin looks valid: its CAT maker is the state's, and its amount the price. -/
def looksValid (state : CatalogState) (precommitAmount : Clvm) (catMakerHash : Bytes) :
    Option Bool := do
  let amountMatches ← state.registrationPrice.eq precommitAmount
  let catMakerMatches ← state.catMakerPuzzleHash.eq (.atom catMakerHash)
  return amountMatches && catMakerMatches

/-- The TAIL is registered: its slot is spent and created again. -/
def keepSlot (H : HashOracle) (K : Constants) (s : RefundSolution) : Option (List Condition) := do
  let (neighbors, counter) ← s.neighborsAndCounter.uncons
  let spend ← spendSlotValue H K (s.slot neighbors counter)
  let next ← counter.increment
  let create ← createSlotValue H K (s.slot neighbors next)
  return [spend, create]

/-- The conditions on the slot of the TAIL, which are there only if the coin looks valid. -/
def slotConditions (H : HashOracle) (K : Constants) (valid : Bool) (s : RefundSolution) :
    Option (List Condition) :=
  if valid then keepSlot H K s else some []

/-- The conditions of `refund`. -/
def refundConditions (slot : List Condition) (announced : Bytes) (precommitPuzzleHash : Clvm)
    (precommitAmount : Clvm) : List Condition :=
  slot ++ [.createPuzzleAnnouncement (.tagged '$' announced),
    .sendMessage puzzlePuzzleAmount .nil [precommitPuzzleHash, precommitAmount]]

/-- `refund.rue`. -/
def refund (M : Machine) (K : Constants) (truth solution : Clvm) :
    Option (Clvm × List Condition) := do
  let t ← CatalogStateTruth.ofClvm? truth
  let s ← RefundSolution.ofClvm? solution
  let catMakerHash ← M.hash.treeHash s.catMaker.puzzle
  let precommit ← precommitPuzzleHash M K s.catMaker.puzzle (s.opening catMakerHash)
  let announced ← M.hash.treeHash (.pair s.other.tailHash s.other.initialNftOwnerPh)
  let valid ← looksValid t.state s.precommitAmount catMakerHash
  let slot ← slotConditions M.hash K valid s
  return (truth, refundConditions slot announced precommit s.precommitAmount)

/-! ## What a refund computes -/

/-- Everything `refund` computes when it does not raise. -/
structure RefundRun (M : Machine) (K : Constants) (truth solution : Clvm) where
  t : CatalogStateTruth
  s : RefundSolution
  truth_eq : truth = t.toClvm
  solution_eq : solution = s.toClvm
  catMakerHash : Bytes
  hashes_catMaker : M.hash.treeHash s.catMaker.puzzle = some catMakerHash
  precommit : Clvm
  makes : precommitPuzzleHash M K s.catMaker.puzzle (s.opening catMakerHash) = some precommit
  announced : Bytes
  hashes_announced : M.hash.treeHash (.pair s.other.tailHash s.other.initialNftOwnerPh)
    = some announced
  valid : Bool
  valid_eq : looksValid t.state s.precommitAmount catMakerHash = some valid
  slot : List Condition
  slot_eq : slotConditions M.hash K valid s = some slot

/-- The conditions of the refund. -/
def RefundRun.conditions {M : Machine} {K : Constants} {truth solution : Clvm}
    (r : RefundRun M K truth solution) : List Condition :=
  refundConditions r.slot r.announced r.precommit r.s.precommitAmount

theorem refund_eq_some {M : Machine} {K : Constants} {truth solution : Clvm}
    {out : Clvm × List Condition} :
    refund M K truth solution = some out ↔
      ∃ r : RefundRun M K truth solution, out = (truth, r.conditions) := by
  constructor
  · intro h
    obtain ⟨t, ht, h1⟩ := bind_elim h
    obtain ⟨s, hs, h2⟩ := bind_elim h1
    obtain ⟨cm, hcm, h3⟩ := bind_elim h2
    obtain ⟨precommit, hprecommit, h4⟩ := bind_elim h3
    obtain ⟨announced, hannounced, h5⟩ := bind_elim h4
    obtain ⟨valid, hvalid, h6⟩ := bind_elim h5
    obtain ⟨slot, hslot, h7⟩ := bind_elim h6
    exact ⟨⟨t, s, CatalogStateTruth.ofClvm?_eq_some.1 ht, RefundSolution.ofClvm?_eq_some.1 hs, cm,
      hcm, precommit, hprecommit, announced, hannounced, valid, hvalid, slot, hslot⟩,
      (Option.some.inj h7).symm⟩
  · rintro ⟨r, rfl⟩
    refine bind_intro (CatalogStateTruth.ofClvm?_eq_some.2 r.truth_eq) ?_
    refine bind_intro (RefundSolution.ofClvm?_eq_some.2 r.solution_eq) ?_
    refine bind_intro r.hashes_catMaker ?_
    refine bind_intro r.makes ?_
    refine bind_intro r.hashes_announced ?_
    refine bind_intro r.valid_eq ?_
    exact bind_intro r.slot_eq rfl

/-! ## The two questions -/

theorem looksValid_eq_some {state : CatalogState} {amount : Clvm} {d : Bytes} {valid : Bool} :
    looksValid state amount d = some valid ↔
      ∃ p a c, state.registrationPrice = .atom p ∧ amount = .atom a ∧
        state.catMakerPuzzleHash = .atom c ∧ valid = (decide (p = a) && decide (c = d)) := by
  constructor
  · intro h
    obtain ⟨b1, hb1, h1⟩ := bind_elim h
    obtain ⟨b2, hb2, h2⟩ := bind_elim h1
    obtain ⟨p, a, hp, ha, rfl⟩ := Clvm.eq_eq_some.1 hb1
    obtain ⟨c, d', hc, hd, rfl⟩ := Clvm.eq_eq_some.1 hb2
    obtain rfl := Clvm.atom.inj hd
    exact ⟨p, a, c, hp, ha, hc, (Option.some.inj h2).symm⟩
  · rintro ⟨p, a, c, hp, ha, hc, rfl⟩
    refine bind_intro (Clvm.eq_eq_some.2 ⟨p, a, hp, ha, rfl⟩) ?_
    exact bind_intro (Clvm.eq_eq_some.2 ⟨c, d, hc, rfl, rfl⟩) rfl

/-- A coin with the price as its amount and the CAT maker of the state looks valid. -/
theorem eq_true_of_looksValid {state : CatalogState} {amount : Clvm} {d : Bytes} {valid : Bool}
    (h : looksValid state amount d = some valid) (hprice : state.registrationPrice = amount)
    (hmaker : state.catMakerPuzzleHash = .atom d) : valid = true := by
  obtain ⟨p, a, c, hp, ha, hc, rfl⟩ := looksValid_eq_some.1 h
  obtain rfl : p = a := Clvm.atom.inj (hp.symm.trans (hprice.trans ha))
  obtain rfl : c = d := Clvm.atom.inj (hc.symm.trans hmaker)
  simp

/-- A slot that is kept is spent, and created with the next counter. -/
theorem keepSlot_eq_some {H : HashOracle} {K : Constants} {s : RefundSolution}
    {cs : List Condition} :
    keepSlot H K s = some cs ↔
      ∃ n c spent created, s.neighborsAndCounter = .pair n (.atom c) ∧
        H.slotCoin K.slot1stCurryHash (s.slot n (.atom c)) = some spent ∧
        H.slotCoin K.slot1stCurryHash (s.slot n (.ofInt (intFromBytes c + 1))) = some created ∧
        cs = [spendCoin spent, createSlotCoin K created] := by
  constructor
  · intro h
    obtain ⟨⟨n, counter⟩, hrest, h1⟩ := bind_elim h
    obtain ⟨spend, hspend, h2⟩ := bind_elim h1
    obtain ⟨next, hnext, h3⟩ := bind_elim h2
    obtain ⟨create, hcreate, h4⟩ := bind_elim h3
    obtain ⟨spent, hspent, rfl⟩ := spendSlotValue_eq_some.1 hspend
    obtain ⟨created, hcreated, rfl⟩ := createSlotValue_eq_some.1 hcreate
    obtain ⟨c, rfl, rfl⟩ := Clvm.increment_eq_some.1 hnext
    exact ⟨n, c, spent, created, Clvm.uncons_eq_some.1 hrest, hspent, hcreated,
      (Option.some.inj h4).symm⟩
  · rintro ⟨n, c, spent, created, hrest, hspent, hcreated, rfl⟩
    refine bind_intro (Clvm.uncons_eq_some.2 hrest) ?_
    refine bind_intro (spendSlotValue_eq_some.2 ⟨_, hspent, rfl⟩) ?_
    refine bind_intro (Clvm.increment_atom c) ?_
    exact bind_intro (createSlotValue_eq_some.2 ⟨_, hcreated, rfl⟩) rfl

/-! ## The slots of a refund -/

namespace RefundRun

variable {M : Machine} {K : Constants} {truth solution : Clvm}
variable (r : RefundRun M K truth solution)

/-- The slot of the TAIL, and the one with the next counter. -/
def kept (s : RefundSolution) : List (Clvm × Clvm) :=
  match s.neighborsAndCounter with
  | .pair n (.atom c) => [(s.slot n (.atom c), s.slot n (.ofInt (intFromBytes c + 1)))]
  | _ => []

theorem mem_kept {s : RefundSolution} {m : Clvm × Clvm} (h : m ∈ kept s) :
    ∃ n c, m = (s.slot n (.atom c), s.slot n (.ofInt (intFromBytes c + 1))) := by
  unfold kept at h
  split at h
  · exact ⟨_, _, List.mem_singleton.1 h⟩
  · cases h

/-- The slot of the TAIL is bumped if the coin looks valid, and no slot is touched
otherwise. -/
def footprint : Footprint := if r.valid then ⟨kept r.s, [], []⟩ else ⟨[], [], []⟩

theorem footprint_matches : r.footprint.Matches M.hash K r.conditions := by
  have hslot := r.slot_eq
  rw [footprint, conditions, refundConditions]
  cases hv : r.valid with
  | false =>
      rw [hv] at hslot
      rw [← Option.some.inj hslot]
      exact ⟨represents_zero _, represents_zero _⟩
  | true =>
      rw [hv] at hslot
      obtain ⟨n, c, spent, created, hrest, hspent, hcreated, h⟩ := keepSlot_eq_some.1 hslot
      rw [h, kept, hrest]
      exact ⟨Represents.cons (f := Item.coin M.hash K) (a := .slot _) hspent (represents_zero _),
        Represents.cons (f := Item.coin M.hash K) (a := .slot _) hcreated (represents_zero _)⟩

theorem footprint_lawful : r.footprint.Lawful := by
  have hslot := r.slot_eq
  rw [footprint]
  cases hv : r.valid with
  | false => exact Footprint.lawful_empty
  | true =>
      rw [hv] at hslot
      obtain ⟨n, c, spent, created, hrest, -, -, -⟩ := keepSlot_eq_some.1 hslot
      rw [kept, hrest]
      exact Footprint.lawful_bump ⟨⟨c, _, _, rfl, rfl⟩, keyOf_counter_congr ..⟩
        (nodeOf_counter_congr ..)

end RefundRun

end SlotMachine.Catalog
