import SlotMachine.Catalog.Binding

/-!
# CATalog: who gets a refund

A refund is meant for precommit coins that cannot be used any more.  The
solution may reveal any program as the CAT maker of the coin, though, and if it
is not the CAT maker of the state, no slot is asked for: such a program may
return the puzzle hash of somebody else's coin.

* `Invalid` — the coins a refund is meant for, by the list at the top of
  `refund.rue`.
* `Forges` — a solution whose CAT maker is not the state's and returns the puzzle
  hash of a given coin.
* `catalog_refund_safe_iff` — **in every history, a refund of a coin is safe
  exactly if it does not forge the coin.**
-/

namespace SlotMachine.Catalog

open Settlement

/-! ## Invalid coins -/

/-- A slot of the TAIL is among the coins `live`. -/
def Registered (H : HashOracle) (K : Constants) (live : Multiset Bytes) (tail : Clvm) : Prop :=
  ∃ v ph, H.slotCoin K.slot1stCurryHash v = some ph ∧ ph ∈ live ∧ keyOf v = some tail

/-- The precommit coins that `refund.rue` calls invalid. -/
inductive Invalid (M : Machine) (K : Constants) (state : CatalogState) (live : Multiset Bytes)
    (o : Opening) (coin : PrecommitCoin) : Prop where
  /-- (a) The CAT maker has changed. -/
  | catMaker (h : o.catMakerHash ≠ state.catMakerPuzzleHash)
  /-- (b) The amount is not the price. -/
  | amount (h : state.registrationPrice ≠ .atom coin.amount)
  /-- (c) The TAIL is registered. -/
  | registered (h : Registered M.hash K live o.data.tailHash)

/-- The solution of a refund reveals a CAT maker that is not the state's and
returns the puzzle hash of the coin, with its amount. -/
def Forges (M : Machine) (K : Constants) (state : CatalogState) (solution : Clvm)
    (coin : PrecommitCoin) : Prop :=
  ∃ (s : RefundSolution) (d : Bytes), solution = s.toClvm ∧
    M.hash.treeHash s.catMaker.puzzle = some d ∧ state.catMakerPuzzleHash ≠ .atom d ∧
    precommitPuzzleHash M K s.catMaker.puzzle (s.opening d) = some (.atom coin.puzzleHash) ∧
    s.precommitAmount = .atom coin.amount

/-! ## One refund -/

section

variable {M : Machine} {K : Constants} {truth solution : Clvm} {coin : PrecommitCoin} {o : Opening}

/-- A refund with a forged CAT maker does go to the coin. -/
theorem RefundRun.send_mem_of_forges (r : RefundRun M K truth solution)
    (h : Forges M K r.t.state solution coin) : coin.send refunded ∈ r.conditions := by
  obtain ⟨s, d, hs, hd, -, hmakes, hamount⟩ := h
  obtain rfl : r.s = s := RefundSolution.toClvm_injective (r.solution_eq.symm.trans hs)
  obtain rfl := Option.some.inj (r.hashes_catMaker.symm.trans hd)
  exact r.send_mem.2 ⟨rfl, Option.some.inj (r.makes.symm.trans hmakes), hamount⟩

/-- A refund that reveals the CAT maker of the state finds what is wrong with the
coin: if its amount is the price, the slot of its TAIL is spent. -/
theorem RefundRun.invalid (hH : M.hash.CollisionFree) (r : RefundRun M K truth solution)
    {live : Multiset Bytes} (hmaker : r.t.state.BindsInner M)
    (hcoin : BuiltFor M K r.t.state o coin) (hsend : coin.send refunded ∈ r.conditions)
    (hown : r.t.state.catMakerPuzzleHash = .atom r.catMakerHash)
    (hlive : ∀ ph ∈ slotSpends r.conditions, ph ∈ live) : Invalid M K r.t.state live o coin := by
  obtain ⟨-, hph, hamount⟩ := r.send_mem.1 hsend
  obtain rfl := (r.builtFor hph hown).unique hH hmaker rfl hcoin
  by_cases hprice : r.t.state.registrationPrice = .atom coin.amount
  · have hvalid := eq_true_of_looksValid r.valid_eq (hprice.trans hamount.symm) hown
    have hslot := r.slot_eq
    rw [hvalid] at hslot
    obtain ⟨n, c, spent, created, -, hspent, -, hcs⟩ := keepSlot_eq_some.1 hslot
    refine .registered ⟨_, spent, hspent, hlive spent (mem_slotSpends ?_), rfl⟩
    rw [conditions, refundConditions, hcs]
    exact List.mem_append_left _ (List.mem_cons_self ..)
  · exact .amount hprice

/-- **A refund is safe exactly if it does not forge a coin.** -/
theorem RefundRun.safe_iff (hH : M.hash.CollisionFree) (r : RefundRun M K truth solution)
    {live : Multiset Bytes} (hmaker : r.t.state.BindsInner M)
    (hcoin : BuiltFor M K r.t.state o coin) (hlive : ∀ ph ∈ slotSpends r.conditions, ph ∈ live) :
    (coin.send refunded ∈ r.conditions → Invalid M K r.t.state live o coin) ↔
      (Forges M K r.t.state solution coin → Invalid M K r.t.state live o coin) := by
  constructor
  · exact fun h hforges => h (r.send_mem_of_forges hforges)
  · intro h hsend
    by_cases hown : r.t.state.catMakerPuzzleHash = .atom r.catMakerHash
    · exact r.invalid hH hmaker hcoin hsend hown hlive
    · obtain ⟨-, hph, hamount⟩ := r.send_mem.1 hsend
      exact h ⟨r.s, r.catMakerHash, r.solution_eq, r.hashes_catMaker, hown, by
        rw [← hph]; exact r.makes, hamount⟩

/-! ## Refunds of a history -/

/-- **Who gets a refund.**  In every block of every history and for every refund
in it: the refund goes only to invalid coins, among those that the CAT maker of
the state made, exactly if it forges only invalid ones. -/
theorem catalog_refund_safe_iff (hH : M.hash.CollisionFree) {r₀ r : Registry}
    {events : List (Event Action)} (hrun : Run (Action.run M K) r₀ events r) :
    ∀ past e future, events = past ++ e :: future →
      ∃ r₁ r₂, Run (Action.run M K) r₀ past r₁ ∧
        BlockStep (Action.run M K) r₁ e.block e.steps r₂ ∧
        ∀ s ∈ e.steps, s.call.action = .refund → ∀ t : CatalogStateTruth, s.truth = t.toClvm →
          t.state.BindsInner M → ∀ o coin, BuiltFor M K t.state o coin →
          ((coin.send refunded ∈ s.conditions → Invalid M K t.state (liveIn r₁ e) o coin) ↔
            (Forges M K t.state s.call.solution coin →
              Invalid M K t.state (liveIn r₁ e) o coin)) := by
  rintro past e future rfl
  obtain ⟨r₁, r₂, hpast, hstep⟩ := hrun.exists_block rfl
  refine ⟨r₁, r₂, hpast, hstep, fun s hs ha t ht hmaker o coin hcoin => ?_⟩
  have hsrun := hstep.run_eq hs
  rw [ha] at hsrun
  obtain ⟨x, hx⟩ := refund_eq_some.1 hsrun
  obtain ⟨-, hconditions⟩ := Prod.mk.inj hx
  obtain rfl : t = x.t := CatalogStateTruth.toClvm_injective (ht.symm.trans x.truth_eq)
  rw [hconditions]
  refine x.safe_iff hH hmaker hcoin fun ph hph => ?_
  rw [← hconditions] at hph
  exact hstep.mem_liveIn hs hph

end

/-! ## A forged refund -/

namespace Example

/-- A refund that reveals a program that returns the puzzle hash of the coin. -/
def forgedRefund : RefundSolution where
  catMaker := ⟨forgedMaker, .nil⟩
  other := solution.other
  precommitAmount := .ofInt 7
  neighborsAndCounter := .nil

/-- The forged CAT maker is not the one of the state. -/
theorem forgedHash_ne : makerHash ≠ forgedHash := by
  intro h
  have hmaker := treeHash_maker
  have hforged : machine.hash.treeHash forgedMaker = some forgedHash :=
    treeHash_part (v := forgedMaker) (by simp)
  rw [h] at hmaker
  have hprograms := HashOracle.treeHash_inj collisionFree hmaker hforged
  exact absurd (Clvm.atom.inj (Clvm.pair.inj hprograms).1) (by decide)

theorem forged_eq : precommitPuzzleHash machine constants forgedMaker
    (forgedRefund.opening forgedHash) = some (.atom coin.puzzleHash) := by
  have hpart : openingSkeletons constants tail (.atom (filled 70)) (filled 71) forgedHash .nil
      ⊆ parts.flatten := part (by simp [parts])
  have hinner : precommitInnerPuzzleHash machine.hash constants (forgedRefund.opening forgedHash)
      = some (openingHash constants tail (.atom (filled 70)) (filled 71) forgedHash .nil) :=
    precommitInnerPuzzleHash_mono le_machine (precommitInnerPuzzleHash_ofSkeletons hpart)
  exact precommitPuzzleHash_eq_some.2 ⟨_, hinner, runCatMaker_eq_some.1 (runCatMaker_quoted ..)⟩

/-- The forged refund runs: no slot is asked for. -/
def forgery : RefundRun machine constants (CatalogStateTruth.mk .nil state).toClvm
    forgedRefund.toClvm where
  t := ⟨.nil, state⟩
  s := forgedRefund
  truth_eq := truth_eq
  solution_eq := rfl
  catMakerHash := forgedHash
  hashes_catMaker := treeHash_part (v := forgedMaker) (by simp)
  precommit := .atom coin.puzzleHash
  makes := forged_eq
  announced := (Skeleton.ofClvm (.pair (.atom tail) (.atom (filled 70)))).hash
  hashes_announced := announced_eq
  valid := false
  valid_eq := looksValid_eq_some.2 ⟨intToBytes 7, intToBytes 7, makerHash, rfl, rfl, rfl, by
    rw [decide_eq_false forgedHash_ne, Bool.and_false]⟩
  slot := []
  slot_eq := rfl

/-- A block with the forged refund. -/
def forgeryBlock : Block Action := ⟨⟨100, 600, []⟩, [[⟨.refund, forgedRefund.toClvm⟩]]⟩

def forgeryStep : Step Action where
  call := ⟨.refund, forgedRefund.toClvm⟩
  truth := (CatalogStateTruth.mk .nil state).toClvm
  truth' := (CatalogStateTruth.mk .nil state).toClvm
  conditions := forgery.conditions

theorem forgery_blockStep :
    ∃ r, BlockStep (Action.run machine constants) launched forgeryBlock [forgeryStep] r := by
  refine ⟨_, blockStep_singleton (refund_eq_some.2 ⟨forgery, rfl⟩) rfl ?_ ?_⟩
  · exact Multiset.zero_le _
  · simp [RefundRun.conditions, refundConditions, forgery, Condition.Holds]

/-- The TAIL of the coin is not registered. -/
theorem not_registered : ¬ Registered machine.hash constants
    (liveIn launched ⟨forgeryBlock, [forgeryStep]⟩) (.atom tail) := by
  rintro ⟨v, ph, hv, hph, hkey⟩
  have hlive : ph = slotPuzzleHash sentinels.lowSlot ∨ ph = slotPuzzleHash sentinels.highSlot := by
    simpa [liveIn, launched, forgeryStep, Step.effect, RefundRun.conditions, refundConditions,
      forgery, zeroCoins, Condition.zeroCoin?, Effect.none] using hph
  rcases hlive with rfl | rfl
  · have hlow := slotCoin_eq (v := sentinels.lowSlot) (by simp [slots])
    obtain rfl := (HashOracle.slotCoin_inj collisionFree hv hlow).2
    exact absurd hkey (by decide)
  · have hhigh := slotCoin_eq (v := sentinels.highSlot) (by simp [slots])
    obtain rfl := (HashOracle.slotCoin_inj collisionFree hv hhigh).2
    exact absurd hkey (by decide)

theorem builtFor : BuiltFor machine constants state (solution.opening state) coin :=
  registration.builtFor rfl

/-- Nothing is wrong with the coin. -/
theorem coin_valid : ¬ Invalid machine constants state
    (liveIn launched ⟨forgeryBlock, [forgeryStep]⟩) (solution.opening state) coin := by
  intro h
  cases h with
  | catMaker h => exact h rfl
  | amount h => exact h rfl
  | registered h => exact not_registered h

end Example

/-- **A refund takes a valid coin.**  The registry has the CAT maker that made
the coin, nothing is wrong with the coin, and a refund whose CAT maker is a
program that returns the coin's puzzle hash is sent to it. -/
theorem catalog_refund_unsafe : ∃ (M : Machine) (K : Constants) (S : Sentinels) (r r' : Registry)
    (b : Block Action) (s : Step Action) (t : CatalogStateTruth) (o : Opening)
    (coin : PrecommitCoin), M.hash.CollisionFree ∧
    K.slot1stCurryHash ≠ K.uniquenessPrelauncher1stCurryHash ∧ Starts M.hash K S r ∧
    BlockStep (Action.run M K) r b [s] r' ∧ s.call.action = .refund ∧ s.truth = t.toClvm ∧
    t.state.BindsInner M ∧ BuiltFor M K t.state o coin ∧ coin.send refunded ∈ s.conditions ∧
    ¬ Invalid M K t.state (liveIn r ⟨b, [s]⟩) o coin := by
  obtain ⟨r', hstep⟩ := Example.forgery_blockStep
  exact ⟨Example.machine, Example.constants, Example.sentinels, Example.launched, r',
    Example.forgeryBlock, Example.forgeryStep, ⟨.nil, Example.state⟩, _, Example.coin,
    Example.collisionFree, by decide, Example.starts, hstep, rfl, rfl, Example.bindsInner,
    Example.builtFor, Example.forgery.send_mem.2 ⟨rfl, rfl, rfl⟩, Example.coin_valid⟩

/-- The condition of `catalog_refund_safe_iff` at the forged refund, which violates it. -/
theorem catalog_refund_safe_iff_forgery : ∃ r₁ r₂,
    BlockStep (Action.run Example.machine Example.constants) r₁ Example.forgeryBlock
      [Example.forgeryStep] r₂ ∧
    ((Example.coin.send refunded ∈ Example.forgery.conditions →
        Invalid Example.machine Example.constants Example.state
          (liveIn r₁ ⟨Example.forgeryBlock, [Example.forgeryStep]⟩)
          (Example.solution.opening Example.state) Example.coin) ↔
      (Forges Example.machine Example.constants Example.state Example.forgedRefund.toClvm
          Example.coin →
        Invalid Example.machine Example.constants Example.state
          (liveIn r₁ ⟨Example.forgeryBlock, [Example.forgeryStep]⟩)
          (Example.solution.opening Example.state) Example.coin)) := by
  obtain ⟨r', hstep⟩ := Example.forgery_blockStep
  obtain ⟨r₁, r₂, -, hblock, hall⟩ := catalog_refund_safe_iff Example.collisionFree
    (.next .start hstep) [] ⟨Example.forgeryBlock, [Example.forgeryStep]⟩ [] rfl
  exact ⟨r₁, r₂, hblock, hall Example.forgeryStep (List.mem_singleton_self _) rfl
    ⟨.nil, Example.state⟩ rfl Example.bindsInner _ Example.coin Example.builtFor⟩

end SlotMachine.Catalog
