import SlotMachine.Xchandles.Binding

/-!
# XCHandles: who gets a refund

A refund is meant for precommit coins that cannot be used any more.  The
solution may reveal any program as the CAT maker of the coin, though, and if it
is not the CAT maker of the state, the action looks no further: such a program
may return the puzzle hash of somebody else's coin.

* `Invalid` — the coins a refund is meant for, by the list at the top of
  `refund.rue`.
* `Forges` — a solution whose CAT maker is not the state's and returns the
  puzzle hash of a given coin.
* `refund_safe_iff` — **in every history, a refund of a coin is safe exactly if
  it does not forge the coin.**
-/

namespace SlotMachine.Xchandles

open Settlement

/-! ## Invalid coins -/

/-- A program with the committed hash returns `amount` as the price, on the
committed solution. -/
def Opening.Priced (M : Machine) (o : Opening) (amount : Bytes) : Prop :=
  ∃ program d out, o.value.pricingHash = .atom d ∧ M.hash.treeHash program = some d ∧
    runPricing M program o.value.pricingSolution = some out ∧ out.totalPrice = .atom amount

/-- The committed solution prices the committed handle. -/
def Opening.PricesHandle (o : Opening) : Prop :=
  ∃ p : HandlePricingSolution, o.value.pricingSolution = p.toClvm ∧ p.handle = o.value.handle

/-- A slot of the handle is among the coins `live`, and has not expired. -/
def Held (H : HashOracle) (K : Constants) (live : Multiset Bytes) (info : BlockInfo)
    (handle : Clvm) : Prop :=
  ∃ v ph hh e, H.slotCoin K.handleSlot1stCurryHash v = some ph ∧ ph ∈ live ∧
    H.treeHashAtom handle = some hh ∧ keyOf v = some (.atom hh) ∧ expirationOf v = some e ∧
    (Condition.assertBeforeSecondsAbsolute e).Holds info

/-- The precommit coins that `refund.rue` calls invalid. -/
inductive Invalid (M : Machine) (K : Constants) (state : XchandlesState) (live : Multiset Bytes)
    (info : BlockInfo) (o : Opening) (coin : PrecommitCoin) : Prop where
  /-- (a) The CAT maker has changed. -/
  | catMaker (h : o.value.catMakerHash ≠ state.catMakerPuzzleHash)
  /-- (b) The amount is not the price. -/
  | amount (h : ¬ o.Priced M coin.amount)
  /-- (c) The pricing puzzle has changed. -/
  | pricing (h : o.value.pricingHash ≠ state.pricingPuzzleHash ∧
      o.value.pricingHash ≠ state.expiredHandlePricingPuzzleHash)
  /-- (c) Another handle was priced. -/
  | handle (h : ¬ o.PricesHandle)
  /-- (d) The handle is registered, and has not expired. -/
  | held (h : Held M.hash K live info o.value.handle)

/-- The solution of a refund reveals a CAT maker that is not the state's and
returns the puzzle hash of the coin, with its amount. -/
def Forges (M : Machine) (K : Constants) (state : XchandlesState) (solution : Clvm)
    (coin : PrecommitCoin) : Prop :=
  ∃ s : RefundSolution, solution = s.toClvm ∧ s.catMaker.puzzleHash ≠ state.catMakerPuzzleHash ∧
    Makes M K s.catMaker.puzzle s.catMaker.solution ⟨s.refundPuzzleHashHash, s.precommitValue⟩
      coin.puzzleHash ∧
    s.precommitAmount = .atom coin.amount

/-! ## One refund -/

section

variable {M : Machine} {K : Constants} {truth solution : Clvm} {coin : PrecommitCoin} {o : Opening}

/-- A refund with a forged CAT maker does go to the coin. -/
theorem RefundRun.send_mem_of_forges (r : RefundRun M K truth solution)
    (h : Forges M K r.t.state solution coin) : coin.send refunded ∈ r.conditions := by
  obtain ⟨s, hs, -, ⟨inner, hinner, hrun⟩, hamount⟩ := h
  obtain rfl : r.s = s := RefundSolution.toClvm_injective (r.solution_eq.symm.trans hs)
  obtain rfl := Option.some.inj (r.hashes_inner.symm.trans hinner)
  exact r.send_mem.2 ⟨rfl, Option.some.inj (hrun.symm.trans r.runs_catMaker), hamount.symm⟩

/-- A refund that reveals the CAT maker of the state reveals the opening of the coin. -/
theorem RefundRun.opening_eq (hH : M.hash.CollisionFree) (r : RefundRun M K truth solution)
    (hmaker : r.t.state.BindsInner M) (hcoin : BuiltFor M K r.t.state o coin)
    (hsend : coin.send refunded ∈ r.conditions)
    (hown : r.s.catMaker.puzzleHash = r.t.state.catMakerPuzzleHash) : o = r.opening := by
  obtain ⟨-, hph, -⟩ := r.send_mem.1 hsend
  have hmakes := r.makes
  rw [← hph] at hmakes
  exact hcoin.unique hH hmaker rfl
    ⟨_, _, _, r.hashes_catMaker, hown.symm.trans r.catMaker_eq, hmakes⟩

/-- The revealed pricing program returns the price. -/
theorem RefundRun.price_eq (hH : M.hash.CollisionFree) (r : RefundRun M K truth solution)
    {amount : Bytes} (h : r.opening.Priced M amount) : r.priced.totalPrice = .atom amount := by
  obtain ⟨program, d, out, hd, hprogram, hrun, hout⟩ := h
  obtain rfl : r.pricingHash = d := Clvm.atom.inj (r.pricing_eq.symm.trans hd)
  obtain rfl := HashOracle.treeHash_inj hH r.hashes_pricing hprogram
  obtain rfl := Option.some.inj (r.runs_pricing.symm.trans hrun)
  exact hout

/-- A refund that reveals the CAT maker of the state finds what is wrong with the
coin: if nothing was wrong, its conditions spend the slot of the handle. -/
theorem RefundRun.invalid (hH : M.hash.CollisionFree) (r : RefundRun M K truth solution)
    {live : Multiset Bytes} {info : BlockInfo} (hmaker : r.t.state.BindsInner M)
    (hcoin : BuiltFor M K r.t.state o coin) (hsend : coin.send refunded ∈ r.conditions)
    (hown : r.s.catMaker.puzzleHash = r.t.state.catMakerPuzzleHash)
    (hlive : ∀ ph ∈ slotSpends r.conditions, ph ∈ live)
    (hholds : ∀ c ∈ r.conditions, c.Holds info) : Invalid M K r.t.state live info o coin := by
  obtain rfl := r.opening_eq hH hmaker hcoin hsend hown
  obtain ⟨-, -, hamount⟩ := r.send_mem.1 hsend
  by_contra hvalid
  have hpriced : r.opening.Priced M coin.amount := by_contra fun h => hvalid (.amount h)
  have hhandle : r.opening.PricesHandle := by_contra fun h => hvalid (.handle h)
  have hpricing : r.opening.value.pricingHash = r.t.state.pricingPuzzleHash ∨
      r.opening.value.pricingHash = r.t.state.expiredHandlePricingPuzzleHash := by
    by_contra h
    exact hvalid (.pricing (not_or.1 h))
  -- all four checks succeed, so the refund keeps the slot of the handle
  obtain ⟨p, hp, hp'⟩ := hhandle
  obtain rfl : r.s.pricing.solution = p := HandlePricingSolution.toClvm_injective hp
  have hlooks : r.valid = true := eq_true_of_looksValid r.valid_eq hown.symm hp'.symm hpricing
    (hamount.symm.trans (r.price_eq hH hpriced).symm)
  have hlast := r.last_eq
  rw [hlooks] at hlast
  obtain ⟨c, a, e, d, spent, created, hslot, hspent, -, hlast'⟩ := keepSlot_eq_some.1 hlast
  have hmem : ∀ cond ∈ r.last, cond ∈ r.conditions := fun cond hcond =>
    List.mem_cons_of_mem _ (List.mem_cons_of_mem _ hcond)
  rw [hlast'] at hmem
  have hne : r.s.slotValue ≠ .nil := by rw [hslot]; exact nofun
  obtain ⟨hh, hhash, hkey⟩ := keyOf_of_slotIsOfHandle r.correct hne
  exact hvalid (.held ⟨r.s.slotValue, spent, hh, e, hspent,
    hlive spent (mem_slotSpends (hmem _ (by simp [spendCoin]))), hhash, hkey,
    by rw [hslot]; rfl, hholds _ (hmem _ (by simp))⟩)

/-- **A refund is safe exactly if it does not forge a coin.** -/
theorem RefundRun.safe_iff (hH : M.hash.CollisionFree) (r : RefundRun M K truth solution)
    {live : Multiset Bytes} {info : BlockInfo} (hmaker : r.t.state.BindsInner M)
    (hcoin : BuiltFor M K r.t.state o coin) (hlive : ∀ ph ∈ slotSpends r.conditions, ph ∈ live)
    (hholds : ∀ c ∈ r.conditions, c.Holds info) :
    (coin.send refunded ∈ r.conditions → Invalid M K r.t.state live info o coin) ↔
      (Forges M K r.t.state solution coin → Invalid M K r.t.state live info o coin) := by
  constructor
  · exact fun h hforges => h (r.send_mem_of_forges hforges)
  · intro h hsend
    by_cases hown : r.s.catMaker.puzzleHash = r.t.state.catMakerPuzzleHash
    · exact r.invalid hH hmaker hcoin hsend hown hlive hholds
    · obtain ⟨-, hph, hamount⟩ := r.send_mem.1 hsend
      have hmakes := r.makes
      rw [← hph] at hmakes
      exact h ⟨r.s, r.solution_eq, hown, hmakes, hamount.symm⟩

/-! ## Refunds of a history -/

/-- **Who gets a refund.**  In every block of every history and for every refund
in it: the refund goes only to invalid coins, among those that the CAT maker of
the state made, exactly if it forges only invalid ones. -/
theorem refund_safe_iff (hH : M.hash.CollisionFree) {r₀ r : Registry}
    {events : List (Event Action)} (hrun : Run (Action.run M K) r₀ events r) :
    ∀ past e future, events = past ++ e :: future →
      ∃ r₁ r₂, Run (Action.run M K) r₀ past r₁ ∧
        BlockStep (Action.run M K) r₁ e.block e.steps r₂ ∧
        ∀ s ∈ e.steps, s.call.action = .refund → ∀ t : XchandlesStateTruth, s.truth = t.toClvm →
          t.state.BindsInner M → ∀ o coin, BuiltFor M K t.state o coin →
          ((coin.send refunded ∈ s.conditions →
              Invalid M K t.state (liveIn r₁ e) e.block.info o coin) ↔
            (Forges M K t.state s.call.solution coin →
              Invalid M K t.state (liveIn r₁ e) e.block.info o coin)) := by
  rintro past e future rfl
  obtain ⟨r₁, r₂, hpast, hstep⟩ := hrun.exists_block rfl
  refine ⟨r₁, r₂, hpast, hstep, fun s hs ha t ht hmaker o coin hcoin => ?_⟩
  have hsrun := hstep.run_eq hs
  rw [ha] at hsrun
  obtain ⟨x, hx⟩ := refund_eq_some.1 hsrun
  obtain ⟨-, hconditions⟩ := Prod.mk.inj hx
  obtain rfl : t = x.t := XchandlesStateTruth.toClvm_injective (ht.symm.trans x.truth_eq)
  rw [hconditions]
  refine x.safe_iff hH hmaker hcoin (fun ph hph => ?_) fun c hc => ?_
  · rw [← hconditions] at hph
    exact hstep.mem_liveIn hs hph
  · rw [← hconditions] at hc
    exact hstep.holds s hs c hc

end

/-! ## A forged refund -/

namespace Example

/-- The registry before the sale, with its two sentinels. -/
def market : Registry where
  state := salesState.toClvm
  live := {HashOracle.slotHash (bytes32 4) (lowSlot .nil), HashOracle.slotHash (bytes32 4) highSlot}

theorem market_starts : Starts saleMachine.hash constants sentinels market :=
  starts_of_coins (slotCoin_sale (v := lowSlot .nil) (by simp [saleParts]))
    (slotCoin_sale (v := highSlot) (by simp [saleParts]))

theorem salesState_bindsInner : salesState.BindsInner saleMachine := fun maker d hd hstate =>
  (isCatMaker_salesState maker d hd hstate).bindsInner saleMachine_collisionFree

/-- The opening of the coin of the sale. -/
def saleOpening : Opening := ⟨.atom (bytes32 21), saleSolution.precommitValue salesState⟩

theorem saleCoin_builtFor : BuiltFor saleMachine constants salesState saleOpening saleCoin :=
  sale.builtFor rfl

/-- The forged CAT maker is not the one of the state. -/
theorem forgedHash_ne : makerHash ≠ forgedHash := by
  intro h
  have hmaker := treeHash_saleMaker
  have hforged : saleMachine.hash.treeHash forgedMaker = some forgedHash :=
    treeHash_sale (v := forgedMaker) (by simp [hashed])
  rw [h] at hmaker
  have hprograms := HashOracle.treeHash_inj saleMachine_collisionFree hmaker hforged
  exact absurd (Clvm.atom.inj (Clvm.pair.inj hprograms).1) (by decide)

theorem looksValid_forged : looksValid salesState forgedRefund (.ofInt 7) = some false := by
  have hmaker : (Clvm.atom makerHash).eq (.atom forgedHash) = some false :=
    Clvm.eq_eq_some.2 ⟨_, _, rfl, rfl, (decide_eq_false forgedHash_ne).symm⟩
  refine bind_intro hmaker ?_
  refine bind_intro (Clvm.eq_atom _) ?_
  refine bind_intro (Clvm.eq_eq_some.2 ⟨_, _, rfl, rfl, rfl⟩) ?_
  refine bind_intro (Clvm.eq_eq_some.2 ⟨_, _, rfl, rfl, rfl⟩) ?_
  exact bind_intro (Clvm.eq_atom _) rfl

/-- The forged refund runs: the price it reveals and the slot of the handle are
not looked at. -/
def forgery : RefundRun saleMachine constants (XchandlesStateTruth.mk .nil salesState).toClvm
    forgedRefund.toClvm where
  t := ⟨.nil, salesState⟩
  s := forgedRefund
  truth_eq := salesTruth_eq
  solution_eq := rfl
  correct := rfl
  catMakerHash := forgedHash
  catMaker_eq := rfl
  hashes_catMaker := treeHash_sale (v := forgedMaker) (by simp [hashed])
  pricingHash := pricingHash
  pricing_eq := rfl
  hashes_pricing := pricingHash_eq
  inner := precommitInnerHash constants (bytes32 40) forgedRefund.precommitValue
  hashes_inner := precommitInnerPuzzleHash_ofSkeletons (r := bytes32 40)
    (part (by simp [saleParts]))
  precommitCoin := saleCoin.puzzleHash
  runs_catMaker := runCatMaker_quoted ..
  priced := ⟨.ofInt 7, .ofInt 366⟩
  runs_pricing := runPricing_quoted ..
  valid := false
  valid_eq := looksValid_forged
  last := []
  last_eq := rfl

/-- A block with the forged refund. -/
def forgeryBlock : Block Action := ⟨⟨100, 600, []⟩, [[⟨.refund, forgedRefund.toClvm⟩]]⟩

def forgeryStep : Step Action where
  call := ⟨.refund, forgedRefund.toClvm⟩
  truth := (XchandlesStateTruth.mk .nil salesState).toClvm
  truth' := (XchandlesStateTruth.mk .nil salesState).toClvm
  conditions := forgery.conditions

theorem forgery_blockStep : ∃ r, BlockStep (Action.run saleMachine constants) market forgeryBlock
    [forgeryStep] r := by
  refine ⟨_, blockStep_singleton (refund_eq_some.2 ⟨forgery, rfl⟩) rfl ?_ ?_⟩
  · exact Multiset.zero_le _
  · simp [RefundRun.conditions, refundConditions, forgery, Condition.Holds]

/-- The handle of the coin is not registered. -/
theorem not_held (info : BlockInfo) :
    ¬ Held saleMachine.hash constants (liveIn market ⟨forgeryBlock, [forgeryStep]⟩) info
      (.atom [104]) := by
  rintro ⟨v, ph, hh, e, hv, hph, hhash, hkey, -, -⟩
  have hlow : saleMachine.hash.slotCoin (bytes32 4) (lowSlot .nil) = some _ :=
    slotCoin_sale (by simp [saleParts])
  have hhigh : saleMachine.hash.slotCoin (bytes32 4) highSlot = some _ :=
    slotCoin_sale (by simp [saleParts])
  have hhandle : saleMachine.hash.treeHashAtom (.atom [104]) = some handleHash :=
    treeHash_sale (v := .atom [104]) (by simp [hashed])
  obtain rfl := Option.some.inj (hhash.symm.trans hhandle)
  have hne : handleHash ≠ bytes32 0 ∧ handleHash ≠ bytes32 255 := by decide +kernel
  have hlive : ph = HashOracle.slotHash (bytes32 4) (lowSlot .nil) ∨
      ph = HashOracle.slotHash (bytes32 4) highSlot := by
    simpa [liveIn, market, forgeryStep, Step.effect, RefundRun.conditions, refundConditions,
      forgery, zeroCoins, Condition.zeroCoin?, Effect.none] using hph
  rcases hlive with rfl | rfl
  · obtain rfl := (HashOracle.slotCoin_inj saleMachine_collisionFree hv hlow).2
    exact hne.1 (Clvm.atom.inj (Option.some.inj hkey)).symm
  · obtain rfl := (HashOracle.slotCoin_inj saleMachine_collisionFree hv hhigh).2
    exact hne.2 (Clvm.atom.inj (Option.some.inj hkey)).symm

/-- Nothing is wrong with the coin of the sale. -/
theorem saleCoin_valid : ¬ Invalid saleMachine constants salesState
    (liveIn market ⟨forgeryBlock, [forgeryStep]⟩) forgeryBlock.info saleOpening saleCoin := by
  intro h
  cases h with
  | catMaker h => exact h rfl
  | amount h =>
      exact h ⟨pricingProgram, pricingHash, ⟨.ofInt 7, .ofInt 366⟩, rfl, sale.hashes_pricing,
        sale.runs_pricing, rfl⟩
  | pricing h => exact h.2 rfl
  | handle h => exact h ⟨saleSolution.pricing.solution, rfl, rfl⟩
  | held h => exact not_held _ h

end Example

/-- **A refund takes a valid coin.**  The registry has the CAT maker that made
the coin, nothing is wrong with the coin, and a refund whose CAT maker is a
program that returns the coin's puzzle hash is sent to it. -/
theorem refund_unsafe : ∃ (M : Machine) (K : Constants) (S : Sentinels) (r r' : Registry)
    (b : Block Action) (s : Step Action) (t : XchandlesStateTruth) (o : Opening)
    (coin : PrecommitCoin), M.hash.CollisionFree ∧
    K.handleSlot1stCurryHash ≠ K.updateSlot1stCurryHash ∧ Starts M.hash K S r ∧
    BlockStep (Action.run M K) r b [s] r' ∧ s.call.action = .refund ∧ s.truth = t.toClvm ∧
    t.state.BindsInner M ∧ BuiltFor M K t.state o coin ∧ coin.send refunded ∈ s.conditions ∧
    ¬ Invalid M K t.state (liveIn r ⟨b, [s]⟩) b.info o coin := by
  obtain ⟨r', hstep⟩ := Example.forgery_blockStep
  exact ⟨Example.saleMachine, Example.constants, Example.sentinels, Example.market, r',
    Example.forgeryBlock, Example.forgeryStep, ⟨.nil, Example.salesState⟩, Example.saleOpening,
    Example.saleCoin, Example.saleMachine_collisionFree, by decide, Example.market_starts, hstep,
    rfl, rfl, Example.salesState_bindsInner, Example.saleCoin_builtFor,
    Example.forgery.send_mem.2 ⟨rfl, rfl, rfl⟩, Example.saleCoin_valid⟩

/-- The condition of `refund_safe_iff` at the forged refund, which violates it. -/
theorem refund_safe_iff_forgery : ∃ r₁ r₂,
    BlockStep (Action.run Example.saleMachine Example.constants) r₁ Example.forgeryBlock
      [Example.forgeryStep] r₂ ∧
    ((Example.saleCoin.send refunded ∈ Example.forgery.conditions →
        Invalid Example.saleMachine Example.constants Example.salesState
          (liveIn r₁ ⟨Example.forgeryBlock, [Example.forgeryStep]⟩) Example.forgeryBlock.info
          Example.saleOpening Example.saleCoin) ↔
      (Forges Example.saleMachine Example.constants Example.salesState
          Example.forgedRefund.toClvm Example.saleCoin →
        Invalid Example.saleMachine Example.constants Example.salesState
          (liveIn r₁ ⟨Example.forgeryBlock, [Example.forgeryStep]⟩) Example.forgeryBlock.info
          Example.saleOpening Example.saleCoin)) := by
  obtain ⟨r', hstep⟩ := Example.forgery_blockStep
  obtain ⟨r₁, r₂, -, hblock, hall⟩ := refund_safe_iff Example.saleMachine_collisionFree
    (.next .start hstep) [] ⟨Example.forgeryBlock, [Example.forgeryStep]⟩ [] rfl
  exact ⟨r₁, r₂, hblock, hall Example.forgeryStep (List.mem_singleton_self _) rfl
    ⟨.nil, Example.salesState⟩ rfl Example.salesState_bindsInner Example.saleOpening
    Example.saleCoin Example.saleCoin_builtFor⟩

end SlotMachine.Xchandles
