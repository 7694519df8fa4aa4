import SlotMachine.Xchandles.RefundSafety

/-!
# XCHandles: every coin has a refund

No precommit coin is locked for ever: whatever is wrong with it, some solution
makes `refund` send the refund message to it.  The solution cannot always be the
honest reveal, which raises if the committed pricing puzzle does
(`RefundRun.price_of_opening`).  But the CAT maker of the solution may be any
program, and so may be the pricing puzzle.

* `exists_refund_of_program` — a program that returns a puzzle hash refunds it,
  unless it is the CAT maker of the state.
* `refund_complete` — **every precommit coin can be refunded at every state.**
-/

namespace SlotMachine.Xchandles

/-- An honest reveal needs a pricing program that returns a price. -/
theorem RefundRun.price_of_opening {M : Machine} {K : Constants} {truth solution : Clvm}
    (r : RefundRun M K truth solution) : ∃ program d out,
      r.opening.value.pricingHash = .atom d ∧ M.hash.treeHash program = some d ∧
      runPricing M program r.opening.value.pricingSolution = some out :=
  ⟨_, _, _, r.pricing_eq, r.hashes_pricing, r.runs_pricing⟩

section

variable {H : HashOracle} {other : Bytes → List Clvm → Option Clvm} {fuel : ℕ} {K : Constants}

/-- The solution that reveals a program as the CAT maker and nothing else. -/
def revealing (program solution : Clvm) (programHash pricingHash amount : Bytes) :
    RefundSolution where
  pricing := ⟨.atom pricingHash, .quoted (.pair .nil .nil), ⟨.nil, .nil, .nil, .nil⟩⟩
  catMaker := ⟨.atom programHash, program, solution⟩
  handle := .nil
  precommitAmount := .atom amount
  slotValue := .nil
  newRest := .nil
  refundPuzzleHashHash := .nil
  secret := .nil

/-- A program that returns the puzzle hash of a coin refunds the coin, unless it
is the CAT maker of the state. -/
theorem exists_refund_of_program (hH : H.Total) {r : Registry} {c p x d : Bytes}
    (hstate : r.state = (XchandlesState.mk (.atom c) (.atom p) (.atom x)).toClvm)
    {program solution : Clvm} (hd : H.treeHash program = some d) (hne : d ≠ c)
    {coin : PrecommitCoin}
    (hrun : ∀ i, runCatMaker (.clvm H other (fuel + 1)) program i solution = some coin.puzzleHash)
    (info : BlockInfo) :
    ∃ s cs, Accepts (Action.run (.clvm H other (fuel + 1)) K) r info
      ⟨.refund, RefundSolution.toClvm s⟩ cs ∧ coin.send refunded ∈ cs := by
  obtain ⟨ph, hph⟩ := hH.treeHash (.quoted (.pair .nil .nil))
  let s := revealing program solution d ph coin.amount
  obtain ⟨inner, hinner⟩ := precommitInnerPuzzleHash_total (K := K) hH [] s.precommitValue
  have hlooks : looksValid ⟨.atom c, .atom p, .atom x⟩ s .nil = some false := by
    refine bind_intro (Clvm.eq_eq_some.2 ⟨c, d, rfl, rfl, (decide_eq_false hne.symm).symm⟩) ?_
    refine bind_intro (Clvm.eq_atom _) ?_
    refine bind_intro (Clvm.eq_eq_some.2 ⟨_, _, rfl, rfl, rfl⟩) ?_
    refine bind_intro (Clvm.eq_eq_some.2 ⟨_, _, rfl, rfl, rfl⟩) ?_
    exact bind_intro (Clvm.eq_eq_some.2 ⟨_, _, rfl, rfl, rfl⟩) rfl
  let run : RefundRun (.clvm H other (fuel + 1)) K (.pair .nil r.state) s.toClvm :=
    { t := ⟨.nil, ⟨.atom c, .atom p, .atom x⟩⟩, s := s, truth_eq := by rw [hstate]; rfl,
      solution_eq := rfl, correct := rfl, catMakerHash := d, catMaker_eq := rfl,
      hashes_catMaker := hd, pricingHash := ph, pricing_eq := rfl, hashes_pricing := hph,
      inner := inner, hashes_inner := hinner, precommitCoin := coin.puzzleHash,
      runs_catMaker := hrun inner, priced := ⟨.nil, .nil⟩,
      runs_pricing := runPricing_quoted .., valid := false,
      valid_eq := hlooks, last := [], last_eq := rfl }
  refine ⟨s, run.conditions, ⟨⟨_, refund_eq_some.2 ⟨run, rfl⟩, r.state, rfl⟩, ?_, ?_⟩,
    run.send_mem.2 ⟨rfl, rfl, rfl⟩⟩
  · exact Multiset.zero_le _
  · simp [RefundRun.conditions, refundConditions, run, Condition.Holds]

/-- Of the two programs `(q . PUZZLE_HASH)` and `3`, at least one does not have a
given hash. -/
theorem exists_foreign_program (hH : H.Total) (c ph : Bytes)
    (hne : H.treeHash (.quoted (.atom ph)) ≠ H.treeHash (.atom [3])) :
    ∃ program solution d, H.treeHash program = some d ∧ d ≠ c ∧
      ∀ i, runCatMaker (.clvm H other (fuel + 1)) program i solution = some ph := by
  obtain ⟨a, ha⟩ := hH.treeHash (.quoted (.atom ph))
  obtain ⟨b, hb⟩ := hH.treeHash (.atom [3])
  by_cases hac : a = c
  · -- the program that returns its solution
    refine ⟨.atom [3], .atom ph, b, hb, ?_, fun i => runCatMaker_eq_some.2 rfl⟩
    rintro rfl
    exact hne (by rw [ha, hb, hac])
  · exact ⟨.quoted (.atom ph), .nil, a, ha, hac, fun i => runCatMaker_quoted ..⟩

/-- **Every coin has a refund.**  At every registry whose state consists of
three hashes, in particular at every one that a history reaches, and for every
precommit coin, in particular for every invalid one: there is a solution of
`refund` that does not raise, needs no slot and sends the refund message to the
coin. -/
theorem refund_complete (hH : H.Total) {r : Registry} {c p x : Bytes}
    (hstate : r.state = (XchandlesState.mk (.atom c) (.atom p) (.atom x)).toClvm)
    (info : BlockInfo) (coin : PrecommitCoin)
    (hne : H.treeHash (.quoted (.atom coin.puzzleHash)) ≠ H.treeHash (.atom [3])) :
    ∃ s cs, Accepts (Action.run (.clvm H other (fuel + 1)) K) r info
      ⟨.refund, RefundSolution.toClvm s⟩ cs ∧ coin.send refunded ∈ cs := by
  obtain ⟨program, solution, d, hd, hdc, hrun⟩ := exists_foreign_program hH c coin.puzzleHash hne
  exact exists_refund_of_program hH hstate hd hdc hrun info

/-- A coin that commits to a CAT maker which has been replaced gets its refund. -/
theorem refund_complete_replaced : ∃ s cs,
    Accepts (Action.run (.clvm .sha256 (fun _ _ => none) 20) Example.constants)
      ⟨(XchandlesState.mk (.atom (Example.bytes32 50)) (.atom (Example.bytes32 51))
        (.atom (Example.bytes32 52))).toClvm, 0⟩ ⟨100, 500, []⟩
      ⟨.refund, RefundSolution.toClvm s⟩ cs ∧
    (PrecommitCoin.mk (Example.bytes32 60) [7]).send refunded ∈ cs :=
  @refund_complete .sha256 (fun _ _ => none) 19 _ HashOracle.sha256_total _ _ _ _ rfl
    ⟨100, 500, []⟩ ⟨Example.bytes32 60, [7]⟩ (by decide +kernel)

end

end SlotMachine.Xchandles
