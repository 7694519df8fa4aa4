import SlotMachine.Chialisp.Catalog
import SlotMachine.Clvm.Curry
import SlotMachine.Rue.Refund

/-!
# The Chialisp refunds

Both refunds are stricter in Chialisp than in Rue: they raise where the Rue actions return
conditions, and return the same conditions otherwise.

* `refund`, `Catalog.refund` — the actions under `puzzles/actions`.
* `Kept`, `Catalog.Kept` — what the Chialisp actions take beyond the checks of the Rue actions.
* `refund_agrees_iff`, `Catalog.catalog_refund_agrees_iff` — **each pair agrees exactly there**.
-/

namespace SlotMachine.Chialisp

/-! ## XCHandles -/

section Xchandles

open SlotMachine.Xchandles
open Rue.Xchandles (ConstantTrees)

section

variable (M : Machine) (K : ConstantTrees)

/-- `(if slot_value (= handle_hash (sha256 1 handle)) 1)`. -/
def slotIsOfHandle (handle slotValue : Clvm) : Option Bool :=
  if slotValue.truthy then do
    let handleHash ← keyOf slotValue
    let hash ← M.hash.hashAtoms [.atom [1], handle]
    handleHash.eq (.atom hash)
  else some true

/-- `(if expiration expiration (x))`. -/
def nonNull (expiration : Clvm) : Option Clvm :=
  if expiration.truthy then some expiration else none

/-- The expiration that `main` is given: `()` if no slot spend is needed. -/
def neededExpiration (valid : Bool) (slotValue : Clvm) : Option Clvm :=
  if valid then expirationOf slotValue >>= nonNull else some .nil

/-- The slot that `main` spends and creates if it is given an expiration. -/
def keepSlot (slotValue expiration : Clvm) : Option (List Clvm) := do
  let (counter, slotValuePart) ← slotValue.uncons
  let spend ← spendHandleValue M K slotValue
  let next ← counter.add (.atom [1])
  let create ← createHandleValue M K (.pair next slotValuePart)
  return [.ofList [.atom [85], expiration], spend, create]

/-- The conditions at the end of `main`. -/
def lastConditions (slotValue expiration : Clvm) : Option (List Clvm) :=
  if expiration.truthy then keepSlot M K slotValue expiration else some []

/-- `main` of `refund.clsp`. -/
def refundMain (slotValue expiration precommitPuzzleHash precommitAmount : Clvm) :
    Option (List Clvm) := do
  let announced ← concatTag '$' precommitPuzzleHash
  let last ← lastConditions M K slotValue expiration
  return .ofList [.atom [66], .atom [19], .nil, precommitPuzzleHash, precommitAmount]
    :: .ofList [.atom [62], announced] :: last

/-- Not (a), not (c) and not (b), for a price. -/
def looksValid (state : XchandlesState) (s : RefundSolution) (totalPrice : Clvm) :
    Option Bool := do
  let catMakerMatches ← s.catMaker.puzzleHash.eq state.catMakerPuzzleHash
  let handleMatches ← s.handle.eq s.pricing.solution.handle
  let isPricing ← s.pricing.puzzleHash.eq state.pricingPuzzleHash
  let isExpiredPricing ← s.pricing.puzzleHash.eq state.expiredHandlePricingPuzzleHash
  let amountMatches ← s.precommitAmount.eq totalPrice
  return catMakerMatches && handleMatches && (isPricing || isExpiredPricing) && amountMatches

/-- The inner puzzle hash of the precommit coin, for the launcher ids it commits to. -/
def refundInnerPuzzleHash (s : RefundSolution) (ownerLauncherId resolvedLauncherId : Clvm) :
    Option Bytes := do
  let valueHash ← xchandlesPrecommitmentValue M.hash s.catMaker.puzzleHash s.catMaker.solution
    s.pricing.puzzleHash s.pricing.solution.toClvm s.handle s.secret ownerLauncherId
    resolvedLauncherId
  let valueHashHash ← M.hash.hashAtoms [.atom [1], .atom valueHash]
  curryHashes M.hash K.precommit1stCurryHash [s.refundPuzzleHashHash, .atom valueHashHash]

/-- `refund.clsp`. -/
def refund (truth solution : Clvm) : Option (Clvm × List Clvm) := do
  let t ← XchandlesStateTruth.ofClvm? truth
  let s ← RefundSolution.ofClvm? solution
  let (ownerLauncherId, resolvedLauncherId) ← s.newRest.uncons
  let catMakerHash ← M.hash.treeHash s.catMaker.puzzle
  let catMakerMatches ← s.catMaker.puzzleHash.eq (.atom catMakerHash)
  let pricingHash ← M.hash.treeHash s.pricing.puzzle
  let pricingMatches ← s.pricing.puzzleHash.eq (.atom pricingHash)
  let correctSlot ← slotIsOfHandle M s.handle s.slotValue
  -- all of them, or (x)
  assertThat (catMakerMatches && pricingMatches && correctSlot)
  let output ← M.eval s.pricing.puzzle s.pricing.solution.toClvm
  let totalPrice ← output.first
  let valid ← looksValid t.state s totalPrice
  let expiration ← neededExpiration valid s.slotValue
  let inner ← refundInnerPuzzleHash M K s ownerLauncherId resolvedLauncherId
  let precommit ← M.eval s.catMaker.puzzle (.pair (.atom inner) s.catMaker.solution)
  let conditions ← refundMain M K s.slotValue expiration precommit s.precommitAmount
  return (truth, conditions)

end

/-- The Chialisp refund takes the launcher ids that the coin commits to apart, and no slot
with the expiration zero. -/
def Kept (solution : Clvm) (cs : List Condition) : Prop :=
  (∃ s owner resolved, RefundSolution.ofClvm? solution = some s ∧
    s.newRest = .pair owner resolved) ∧ .assertBeforeSecondsAbsolute .nil ∉ cs

section

variable {M : Machine} {K : ConstantTrees}

theorem slotIsOfHandle_eq (handle slotValue : Clvm) :
    slotIsOfHandle M handle slotValue
      = SlotMachine.Xchandles.slotIsOfHandle M.hash handle slotValue := by
  unfold slotIsOfHandle SlotMachine.Xchandles.slotIsOfHandle
  by_cases hnil : slotValue = .nil
  · simp [hnil, Clvm.truthy]
  · have htruthy : slotValue.truthy = true := by simpa [Clvm.truthy] using hnil
    rw [if_pos htruthy, if_neg hnil]
    cases hhash : M.hash.treeHashAtom handle with
    | none =>
        have hnone : M.hash.hashAtoms [.atom [1], handle] = none := hhash
        simp only [hnone, none_bind, bind_none]
    | some hash =>
        have hsome : M.hash.hashAtoms [.atom [1], handle] = some hash := hhash
        simp only [hsome, some_bind]
        exact congrArg _ (funext fun key => eq_swap ..)

/-- Slots are neither spent nor created by a time lock. -/
theorem assertBefore_ne_slot {H : HashOracle} {fc v : Clvm} {c : Condition}
    (h : Rue.spendSlotOf H fc v = some c ∨ Rue.createSlotOf H fc v = some c) (seconds : Clvm) :
    .assertBeforeSecondsAbsolute seconds ≠ c := by
  rintro rfl
  rcases h with h | h
  · obtain ⟨d, -, h1⟩ := bind_elim h
    obtain ⟨ph, -, h2⟩ := bind_elim h1
    cases h2
  · obtain ⟨d, -, h1⟩ := bind_elim h
    obtain ⟨ph, -, h2⟩ := bind_elim h1
    cases h2

/-- A slot is kept alike, unless its expiration is zero. -/
theorem keepSlot_eq (hH : CurryConstants M.hash) (slotValue : Clvm) :
    (expirationOf slotValue >>= fun expiration => nonNull expiration >>= keepSlot M K slotValue)
      = (Rue.Xchandles.keepSlot M.hash K slotValue).bind fun cs =>
          if .assertBeforeSecondsAbsolute .nil ∈ cs then none
          else some (cs.map Condition.toClvm) := by
  match slotValue with
  | .atom _ => rfl
  | .pair _ (.atom _) => rfl
  | .pair _ (.pair _ (.atom _)) => rfl
  | .pair counter (.pair a (.pair expiration data)) =>
      show nonNull expiration >>= _ = _
      unfold nonNull
      by_cases hnil : expiration = .nil
      · subst hnil
        have hfalse : Clvm.truthy .nil = false := rfl
        rw [hfalse, if_neg Bool.false_ne_true, none_bind]
        cases hkept : Rue.Xchandles.keepSlot M.hash K
            (.pair counter (.pair a (.pair .nil data))) with
        | none => rfl
        | some cs =>
            obtain ⟨spend, -, h1⟩ := bind_elim hkept
            obtain ⟨next, -, h2⟩ := bind_elim h1
            obtain ⟨create, -, h3⟩ := bind_elim h2
            obtain rfl := Option.some.inj h3
            rw [Option.bind_some, if_pos List.mem_cons_self]
      · have htruthy : expiration.truthy = true := by simpa [Clvm.truthy] using hnil
        rw [if_pos htruthy, some_bind]
        simp only [keepSlot, Rue.Xchandles.keepSlot, spendHandleValue_eq hH,
          createHandleValue_eq hH, Clvm.uncons, some_bind]
        cases hspend : Rue.spendSlotOf M.hash K.handleSlot1stCurryHash
            (.pair counter (.pair a (.pair expiration data))) with
        | none => rfl
        | some spend =>
            simp only [Option.map_some, some_bind, Clvm.increment]
            cases counter.add (.atom [1]) with
            | none => rfl
            | some next =>
                simp only [some_bind]
                cases hcreate : Rue.createSlotOf M.hash K.handleSlot1stCurryHash
                    (.pair next (.pair a (.pair expiration data))) with
                | none => rfl
                | some create =>
                    have hne : Condition.assertBeforeSecondsAbsolute .nil
                        ∉ [.assertBeforeSecondsAbsolute expiration, spend, create] := by
                      simp only [List.mem_cons, List.not_mem_nil, or_false, not_or,
                        Condition.assertBeforeSecondsAbsolute.injEq]
                      exact ⟨fun h => hnil h.symm, assertBefore_ne_slot (.inl hspend) _,
                        assertBefore_ne_slot (.inr hcreate) _⟩
                    exact (if_neg hne).symm

/-- The message to the precommit coin and the announcement, before other conditions. -/
def afterMessage (b : Bytes) (amount : Clvm) (last : List Clvm) : List Clvm :=
  .ofList [.atom [66], .atom [19], .nil, .atom b, amount]
    :: .ofList [.atom [62], .tagged '$' b] :: last

theorem refundMain_nonNull (slotValue expiration : Clvm) (b : Bytes) (amount : Clvm) :
    (nonNull expiration >>= fun e => refundMain M K slotValue e (.atom b) amount)
      = (nonNull expiration >>= keepSlot M K slotValue).map (afterMessage b amount) := by
  unfold nonNull
  by_cases htruthy : expiration.truthy = true
  · rw [if_pos htruthy, some_bind, some_bind, refundMain, lastConditions, if_pos htruthy]
    cases keepSlot M K slotValue expiration <;> rfl
  · rw [if_neg htruthy]
    rfl

/-- What is behind the checks: the message to the precommit coin, and the slot. -/
theorem refundMain_eq (hH : CurryConstants M.hash) (valid : Bool) (slotValue precommit amount :
    Clvm) :
    (neededExpiration valid slotValue >>= fun expiration =>
        refundMain M K slotValue expiration precommit amount)
      = precommit.bytes?.bind fun b =>
        (Rue.Xchandles.lastConditions M.hash K valid slotValue).bind fun last =>
          if .assertBeforeSecondsAbsolute .nil ∈ refundConditions b amount last then none
          else some ((refundConditions b amount last).map Condition.toClvm) := by
  have hmem : ∀ b last, Condition.assertBeforeSecondsAbsolute .nil ∈ refundConditions b amount last
      ↔ .assertBeforeSecondsAbsolute .nil ∈ last := by
    intro b last
    simp [refundConditions]
  simp only [hmem]
  cases precommit with
  | pair x y =>
      have hnone : ∀ e, refundMain M K slotValue e (.pair x y) amount = none := fun _ => rfl
      simp only [hnone, bind_none]
      rfl
  | atom b =>
      cases valid with
      | false => rfl
      | true =>
          calc ((expirationOf slotValue >>= nonNull) >>= fun expiration =>
                refundMain M K slotValue expiration (.atom b) amount)
              = (expirationOf slotValue >>= fun expiration => nonNull expiration
                  >>= keepSlot M K slotValue).map (afterMessage b amount) := by
                cases expirationOf slotValue with
                | none => rfl
                | some expiration => exact refundMain_nonNull slotValue expiration b amount
            _ = _ := by
                rw [keepSlot_eq hH, bytes?_atom, Option.bind_some]
                unfold Rue.Xchandles.lastConditions
                rw [if_pos rfl]
                cases Rue.Xchandles.keepSlot M.hash K slotValue with
                | none => rfl
                | some last =>
                    by_cases hlast : .assertBeforeSecondsAbsolute .nil ∈ last
                    · simp only [Option.bind_some, if_pos hlast, Option.map_none]
                    · simp only [Option.bind_some, if_neg hlast, Option.map_some]
                      rfl

theorem looksValid_eq (state : XchandlesState) (s : RefundSolution) (price : Clvm) :
    looksValid state s price = SlotMachine.Xchandles.looksValid state s price := by
  unfold looksValid SlotMachine.Xchandles.looksValid
  rw [eq_swap]

theorem refundInnerPuzzleHash_eq (hH : CurryConstants M.hash) (s : RefundSolution)
    (owner resolved : Clvm) (hrest : s.newRest = .pair owner resolved) :
    refundInnerPuzzleHash M K s owner resolved = Rue.Xchandles.precommitInnerPuzzleHash M.hash K
      s.refundPuzzleHashHash s.precommitValue := by
  unfold refundInnerPuzzleHash Rue.Xchandles.precommitInnerPuzzleHash RefundSolution.precommitValue
  simp only [curryHashes_eq hH, hrest]
  rfl

/-- The end of the refund, from the price on. -/
theorem refund_end (hH : CurryConstants M.hash) (truth : Clvm) (valid : Bool) (slotValue precommit
    amount : Clvm) :
    (neededExpiration valid slotValue >>= fun expiration =>
        refundMain M K slotValue expiration precommit amount >>= fun conditions =>
          pure (truth, conditions))
      = precommit.bytes? >>= fun b =>
        Rue.Xchandles.lastConditions M.hash K valid slotValue >>= fun last =>
          if .assertBeforeSecondsAbsolute .nil ∈ refundConditions b amount last then none
          else some (asTrees (truth, refundConditions b amount last)) := by
  calc (neededExpiration valid slotValue >>= fun expiration =>
        refundMain M K slotValue expiration precommit amount >>= fun conditions =>
          pure (truth, conditions))
      = (neededExpiration valid slotValue >>= fun expiration =>
          refundMain M K slotValue expiration precommit amount).map fun cs => (truth, cs) := by
        refine bind_congr_map fun expiration => ?_
        cases refundMain M K slotValue expiration precommit amount <;> rfl
    _ = _ := by
        rw [refundMain_eq hH]
        cases precommit.bytes? with
        | none => rfl
        | some b =>
            cases Rue.Xchandles.lastConditions M.hash K valid slotValue with
            | none => rfl
            | some last =>
                by_cases hlast : .assertBeforeSecondsAbsolute .nil ∈ refundConditions b amount last
                · simp only [Option.bind_some, some_bind, if_pos hlast, Option.map_none]
                · simp only [Option.bind_some, some_bind, if_neg hlast, Option.map_some]
                  rfl

/-- **The refund is stricter**: it takes apart the launcher ids, and keeps no slot with the
expiration zero. -/
theorem refund_eq (hH : CurryConstants M.hash) {truth solution : Clvm} {s : RefundSolution}
    (hs : RefundSolution.ofClvm? solution = some s) :
    refund M K truth solution = s.newRest.uncons >>= fun _ =>
      (Rue.Xchandles.refund M K truth solution) >>= fun out =>
        if .assertBeforeSecondsAbsolute .nil ∈ out.2 then none else some (asTrees out) := by
  unfold refund Rue.Xchandles.refund
  simp only [hs, slotIsOfHandle_eq, some_bind]
  cases hrest : s.newRest with
  | atom _ => exact bind_none
  | pair owner resolved =>
      simp only [Clvm.uncons, some_bind, refundInnerPuzzleHash_eq hH s owner resolved hrest,
        looksValid_eq]
      refine bind_congr_bind fun t => ?_
      -- the Rue action looks at the slot first
      cases SlotMachine.Xchandles.slotIsOfHandle M.hash s.handle s.slotValue with
      | none => simp only [none_bind, bind_none]
      | some correctSlot =>
          rw [some_bind]
          refine bind_congr_bind fun catMakerHash => bind_congr_bind fun catMakerMatches => ?_
          refine bind_congr_bind fun pricingHash => bind_congr_bind fun pricingMatches => ?_
          rw [some_bind]
          refine bind_congr_bind fun _ => ?_
          -- and makes the coin before it looks at the price
          cases hinner : Rue.Xchandles.precommitInnerPuzzleHash M.hash K s.refundPuzzleHashHash
              s.precommitValue with
          | none => simp only [none_bind, bind_none]
          | some inner =>
              simp only [some_bind]
              unfold runCatMaker
              cases hmade : M.eval s.catMaker.puzzle (.pair (.atom inner) s.catMaker.solution) with
              | none => simp only [none_bind, bind_none]
              | some precommit =>
                  simp only [some_bind, refund_end hH]
                  cases precommit with
                  | pair x y =>
                      have hnone : (Clvm.pair x y).bytes? = none := rfl
                      simp only [hnone, none_bind, bind_none]
                  | atom b =>
                      simp only [bytes?_atom, some_bind]
                      unfold runPricing
                      cases M.eval s.pricing.puzzle s.pricing.solution.toClvm with
                      | none => rfl
                      | some output =>
                          cases output with
                          | atom _ => rfl
                          | pair price time =>
                              simp only [some_bind, Clvm.first, Clvm.uncons, Option.pure_def]
                              refine bind_congr_bind fun valid => bind_congr_bind fun last => ?_
                              rfl

/-- **The two refunds agree if and only if** the Rue action raises, or the coin commits to two
launcher ids and no slot with the expiration zero is kept.  Where they do not agree the
Chialisp action raises. -/
theorem refund_agrees_iff (eval : Clvm → Clvm → Option Clvm) (K : ConstantTrees)
    (truth solution : Clvm) :
    let M : Machine := ⟨.sha256, eval⟩
    (refund M K truth solution = (Rue.Xchandles.refund M K truth solution).map asTrees ∨
        refund M K truth solution = none) ∧
      (refund M K truth solution = (Rue.Xchandles.refund M K truth solution).map asTrees ↔
        ∀ out, Rue.Xchandles.refund M K truth solution = some out → Kept solution out.2) := by
  intro M
  have hH : CurryConstants M.hash := sha256_curryConstants
  cases hs : RefundSolution.ofClvm? solution with
  | none =>
      have hrue : Rue.Xchandles.refund M K truth solution = none := by
        unfold Rue.Xchandles.refund
        simp only [hs, none_bind, bind_none]
      have hclsp : refund M K truth solution = none := by
        unfold refund
        simp only [hs, none_bind, bind_none]
      rw [hrue, hclsp]
      exact ⟨Or.inl rfl, iff_of_true rfl fun _ h => by cases h⟩
  | some s =>
      rw [refund_eq hH hs]
      cases hrue : Rue.Xchandles.refund M K truth solution with
      | none =>
          have hnone : (s.newRest.uncons >>= fun _ => (none : Option (Clvm × List Condition)) >>=
              fun out => if .assertBeforeSecondsAbsolute .nil ∈ out.2 then none
                else some (asTrees out)) = none := bind_none
          rw [hnone]
          exact ⟨Or.inl rfl, iff_of_true rfl fun _ h => by cases h⟩
      | some out =>
          rw [some_bind]
          unfold Kept
          cases hrest : s.newRest with
          | atom b =>
              refine ⟨Or.inr rfl, iff_of_false (Option.some_ne_none _).symm fun h => ?_⟩
              obtain ⟨⟨s', owner, resolved, hs', hpair⟩, -⟩ := h out rfl
              rw [← Option.some.inj (hs.symm.trans hs'), hrest] at hpair
              cases hpair
          | pair owner resolved =>
              simp only [Clvm.uncons, some_bind]
              by_cases hzero : .assertBeforeSecondsAbsolute .nil ∈ out.2
              · rw [if_pos hzero]
                refine ⟨Or.inr rfl, iff_of_false (Option.some_ne_none _).symm fun h => ?_⟩
                exact (h out rfl).2 hzero
              · rw [if_neg hzero]
                refine ⟨Or.inl rfl, iff_of_true rfl ?_⟩
                rintro _ ⟨⟩
                exact ⟨⟨s, owner, resolved, hs, hrest⟩, hzero⟩

end

end Xchandles

/-! ## CATalog -/

namespace Catalog

open SlotMachine.Catalog
open Rue.Catalog (ConstantTrees)
open Clvm (treeHash256)

/-- The solution of `refund.clsp`: that of the Rue action, with the hash of the CAT maker in
front of it. -/
def hashed (catMakerHash : Clvm) (s : RefundSolution) : Clvm :=
  .pair (.pair catMakerHash (.pair s.catMaker.puzzle s.catMaker.solution))
    (.pair s.other.toClvm (.pair s.precommitAmount s.neighborsAndCounter))

/-- Takes the solution of `refund.clsp` apart. -/
def unhashed? : Clvm → Option (Clvm × RefundSolution)
  | .pair (.pair catMakerHash reveal) rest => do
      let s ← RefundSolution.ofClvm? (.pair reveal rest)
      return (catMakerHash, s)
  | _ => none

section

variable (M : Machine) (K : ConstantTrees)

/-- `main` of `refund.clsp`. -/
def refundMain (spentSlotValueHash createdSlotValueHash : Bytes) (slotSpendNeeded : Bool)
    (baseConditions : List Clvm) : Option (List Clvm) :=
  if slotSpendNeeded then do
    let spend ← spendSlot M.hash K.slot1stCurryHash spentSlotValueHash
    let create ← createSlot M.hash K.slot1stCurryHash createdSlotValueHash
    return spend :: create :: baseConditions
  else some baseConditions

/-- `refund.clsp`. -/
def refund (truth solution : Clvm) : Option (Clvm × List Clvm) := do
  let t ← CatalogStateTruth.ofClvm? truth
  let (precommitedCatMakerHash, s) ← unhashed? solution
  let catMakerHash ← M.hash.treeHash s.catMaker.puzzle
  let catMakerMatches ← precommitedCatMakerHash.eq (.atom catMakerHash)
  -- or (x)
  assertThat catMakerMatches
  let (neighbors, counter) ← s.neighborsAndCounter.uncons
  let spent ← M.hash.treeHash (s.slot neighbors counter)
  let next ← counter.add (.atom [1])
  let created ← M.hash.treeHash (s.slot neighbors next)
  let amountMatches ← t.state.registrationPrice.eq s.precommitAmount
  let catMakerIsState ← precommitedCatMakerHash.eq t.state.catMakerPuzzleHash
  let announced ← M.hash.treeHash (.pair s.other.tailHash s.other.initialNftOwnerPh)
  let precommit ← precommitPuzzleHash M K s.catMaker.puzzle
    ⟨s.other, precommitedCatMakerHash, s.catMaker.solution⟩
  let conditions ← refundMain M K spent created (amountMatches && catMakerIsState)
    [.ofList [.atom [62], .tagged '$' announced],
      .ofList [.atom [66], .atom [19], .nil, precommit, s.precommitAmount]]
  return (truth, conditions)

end

section

variable {M : Machine} {K : ConstantTrees}

theorem unhashed?_eq_some {v h : Clvm} {s : RefundSolution} :
    unhashed? v = some (h, s) ↔ v = hashed h s := by
  constructor
  · intro hv
    unfold unhashed? at hv
    split at hv
    · obtain ⟨s', hs', hout⟩ := bind_elim hv
      obtain ⟨rfl, rfl⟩ := Prod.mk.inj (Option.some.inj hout)
      obtain ⟨rfl, rfl⟩ := Clvm.pair.inj (RefundSolution.ofClvm?_eq_some.1 hs')
      rfl
    · cases hv
  · rintro rfl
    exact bind_intro (RefundSolution.ofClvm?_eq_some.2 rfl) rfl

/-- What `main` does to the slot is what the Rue action does, if both hashes are there. -/
theorem refundMain_eq (hH : CurryConstants M.hash) {s : RefundSolution}
    {neighbors counter next : Clvm} {spent created : Bytes}
    (hrest : s.neighborsAndCounter = .pair neighbors counter)
    (hspent : M.hash.treeHash (s.slot neighbors counter) = some spent)
    (hnext : counter.increment = some next)
    (hcreated : M.hash.treeHash (s.slot neighbors next) = some created) (valid : Bool)
    (announced : Bytes) (precommit amount : Clvm) :
    refundMain M K spent created valid [.ofList [.atom [62], .tagged '$' announced],
        .ofList [.atom [66], .atom [19], .nil, precommit, amount]]
      = (Rue.Catalog.slotConditions M.hash K valid s).map fun slot =>
          (refundConditions slot announced precommit amount).map Condition.toClvm := by
  unfold refundMain Rue.Catalog.slotConditions
  cases valid with
  | false => rfl
  | true =>
      rw [if_pos rfl, if_pos rfl, hrest, Clvm.uncons_pair, some_bind]
      simp only [Rue.spendSlotOf, hspent, some_bind, hnext, spendSlot_eq hH]
      refine map_bind_congr_map fun spend => ?_
      simp only [Rue.createSlotOf, hcreated, some_bind, createSlot_eq hH]
      refine map_bind_congr_map fun create => ?_
      rfl

/-- The solution has neighbours and a counter, which is an atom. -/
def Counts (s : RefundSolution) : Prop := ∃ n c, s.neighborsAndCounter = .pair n (.atom c)

/-- **The refund is stricter**: it counts the slot up whether or not it spends it. -/
theorem refund_hashed_eq_none {truth h : Clvm} {s : RefundSolution} (hs : ¬ Counts s) :
    refund M K truth (hashed h s) = none := by
  rw [Option.eq_none_iff_forall_ne_some]
  intro out hout
  obtain ⟨t, -, h1⟩ := bind_elim hout
  obtain ⟨⟨h', s'⟩, hsolution, h2⟩ := bind_elim h1
  obtain ⟨d, -, h3⟩ := bind_elim h2
  obtain ⟨catMakerMatches, -, h4⟩ := bind_elim h3
  obtain ⟨_, -, h5⟩ := bind_elim h4
  obtain ⟨⟨n, counter⟩, hrest, h6⟩ := bind_elim h5
  obtain ⟨spent, -, h7⟩ := bind_elim h6
  obtain ⟨next, hnext, -⟩ := bind_elim h7
  obtain ⟨-, rfl⟩ := Prod.mk.inj
    (Option.some.inj (hsolution.symm.trans (unhashed?_eq_some.2 rfl)))
  obtain ⟨c, rfl, -⟩ := Clvm.increment_eq_some.1 hnext
  exact hs ⟨n, c, Clvm.uncons_eq_some.1 hrest⟩

/-- Apart from that it does what the Rue action does. -/
theorem refund_hashed {eval : Clvm → Clvm → Option Clvm} (truth : Clvm) {s : RefundSolution}
    (hs : Counts s) :
    refund ⟨.sha256, eval⟩ K truth (hashed (.atom (treeHash256 s.catMaker.puzzle)) s)
      = (Rue.Catalog.refund ⟨.sha256, eval⟩ K truth s.toClvm).map asTrees := by
  have hself : ∀ b : Bytes, (Clvm.atom b).eq (.atom b) = some true := by
    intro b
    simp [Clvm.eq, Clvm.bytes?]
  obtain ⟨n, c, hrest⟩ := hs
  have huncons : s.neighborsAndCounter.uncons = some (n, .atom c) := Clvm.uncons_eq_some.2 hrest
  obtain ⟨next, hnext⟩ : ∃ next, (Clvm.atom c).add (.atom [1]) = some next := ⟨_, rfl⟩
  unfold refund Rue.Catalog.refund
  simp only [unhashed?_eq_some.2 rfl, RefundSolution.ofClvm?_eq_some.2 rfl, treeHash_sha256,
    some_bind, hself, precommitPuzzleHash_eq (M := ⟨.sha256, eval⟩) sha256_curryConstants]
  refine bind_congr_map fun t => ?_
  have hassert : assertThat true = some () := rfl
  simp only [hassert, some_bind, huncons, hnext]
  unfold RefundSolution.opening SlotMachine.Catalog.looksValid
  -- the Rue action makes the coin first
  cases Rue.Catalog.precommitPuzzleHash ⟨.sha256, eval⟩ K s.catMaker.puzzle
      ⟨s.other, .atom (treeHash256 s.catMaker.puzzle), s.catMaker.solution⟩ with
  | none => simp only [none_bind, bind_none, Option.map_none]
  | some precommit =>
      simp only [some_bind, Option.bind_eq_bind, Option.bind_assoc]
      refine bind_congr_map fun amountMatches => ?_
      rw [eq_swap]
      refine bind_congr_map fun catMakerMatches => ?_
      have hmain := refundMain_eq (M := ⟨.sha256, eval⟩) (K := K) sha256_curryConstants hrest
        (treeHash_sha256 _) hnext (treeHash_sha256 _) (amountMatches && catMakerMatches)
        (treeHash256 (.pair s.other.tailHash s.other.initialNftOwnerPh)) precommit
        s.precommitAmount
      rw [hmain]
      exact map_bind_congr_map fun slot => rfl

/-- **The two refunds agree if and only if** the Rue action raises, or is given neighbours and
a counter that is an atom, whether it looks at them or not.  Where they do not agree the
Chialisp action raises, and it raises unless the solution names the hash of the CAT maker it
reveals. -/
theorem catalog_refund_agrees_iff (eval : Clvm → Clvm → Option Clvm) (K : ConstantTrees)
    (truth : Clvm) :
    (∀ solution out, refund ⟨.sha256, eval⟩ K truth solution = some out →
      ∃ s, solution = hashed (.atom (treeHash256 s.catMaker.puzzle)) s ∧
        (Rue.Catalog.refund ⟨.sha256, eval⟩ K truth s.toClvm).map asTrees = some out) ∧
    ∀ s, (refund ⟨.sha256, eval⟩ K truth (hashed (.atom (treeHash256 s.catMaker.puzzle)) s)
          = (Rue.Catalog.refund ⟨.sha256, eval⟩ K truth s.toClvm).map asTrees ∨
        refund ⟨.sha256, eval⟩ K truth (hashed (.atom (treeHash256 s.catMaker.puzzle)) s) = none) ∧
      (refund ⟨.sha256, eval⟩ K truth (hashed (.atom (treeHash256 s.catMaker.puzzle)) s)
          = (Rue.Catalog.refund ⟨.sha256, eval⟩ K truth s.toClvm).map asTrees ↔
        Rue.Catalog.refund ⟨.sha256, eval⟩ K truth s.toClvm = none ∨
          ∃ n c, s.neighborsAndCounter = .pair n (.atom c)) := by
  constructor
  · intro solution out h
    obtain ⟨t, -, h1⟩ := bind_elim h
    obtain ⟨⟨catMakerHash, s⟩, hs, h2⟩ := bind_elim h1
    obtain ⟨d, hd, h3⟩ := bind_elim h2
    obtain ⟨catMakerMatches, hmatches, h4⟩ := bind_elim h3
    obtain ⟨_, hassert, -⟩ := bind_elim h4
    rw [assertThat_eq_some] at hassert
    subst hassert
    obtain ⟨_, rfl, hsame⟩ := Clvm.eq_eq_some_true.1 hmatches
    obtain rfl := Clvm.atom.inj hsame
    obtain rfl := Option.some.inj (hd.symm.trans (treeHash_sha256 _))
    obtain rfl := unhashed?_eq_some.1 hs
    have hcounts : Counts s := by
      by_contra hnot
      rw [refund_hashed_eq_none hnot] at h
      cases h
    rw [refund_hashed truth hcounts] at h
    exact ⟨s, rfl, h⟩
  · intro s
    by_cases hcounts : Counts s
    · have heq : refund ⟨.sha256, eval⟩ K truth (hashed (.atom (treeHash256 s.catMaker.puzzle)) s)
          = (Rue.Catalog.refund ⟨.sha256, eval⟩ K truth s.toClvm).map asTrees :=
        refund_hashed truth hcounts
      exact ⟨Or.inl heq, iff_of_true heq (Or.inr hcounts)⟩
    · have hnone : refund ⟨.sha256, eval⟩ K truth
          (hashed (.atom (treeHash256 s.catMaker.puzzle)) s) = none := refund_hashed_eq_none hcounts
      refine ⟨Or.inr hnone, ?_⟩
      rw [hnone, eq_comm, Option.map_eq_none_iff]
      exact ⟨Or.inl, fun h => h.resolve_right hcounts⟩

end

end Catalog

end SlotMachine.Chialisp
