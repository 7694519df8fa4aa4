import SlotMachine.Chialisp.Xchandles

/-!
# The Chialisp `expire`

The Rue action asks the resolved singleton for its approval unless its launcher
id is that of the owner; the Chialisp action, like both registrations, unless its
puzzle hash is.

* `expire` — the action under `puzzles/actions/xchandles`.
* `expireShared` — what both actions compute apart from this approval.
* `SameApprovals` — the condition under which both ask alike;
  `expire_agrees_iff` says that **the two actions agree exactly then**, and
  `expire_disagrees` that they do not always.
-/

namespace SlotMachine.Chialisp

open SlotMachine.Xchandles
open Rue.Xchandles (ConstantTrees)

/-- `expire.clsp`. -/
def expire (M : Machine) (K : ConstantTrees) (truth solution : Clvm) :
    Option (Clvm × List Clvm) := do
  let t ← XchandlesStateTruth.ofClvm? truth
  let s ← ExpireSolution.ofClvm? solution
  let pricing := s.pricing.solution
  let catMakerHash ← M.hash.treeHash s.catMaker.puzzle
  let catMakerMatches ← (Clvm.atom catMakerHash).eq t.state.catMakerPuzzleHash
  let pricingHash ← M.hash.treeHash s.pricing.puzzle
  let pricingMatches ← (Clvm.atom pricingHash).eq t.state.expiredHandlePricingPuzzleHash
  -- both of them, or (x)
  assertThat (catMakerMatches && pricingMatches)
  let handleHash ← M.hash.hashAtoms [.atom [1], pricing.handle]
  let priced ← runPricing M s.pricing.puzzle pricing.toClvm
  let inner ← precommitInnerPuzzleHash M K t.state.catMakerPuzzleHash s.catMaker.solution
    t.state.expiredHandlePricingPuzzleHash pricing s.other
  let precommit ← M.eval s.catMaker.puzzle (.pair (.atom inner) s.catMaker.solution)
  let owner ← singletonHash M K s.other.newRest.ownerLauncherId s.newOwnerInnerPuzzleHash
  let spend ← spendHandle M K s.counter (.atom handleHash) s.neighbors pricing.currentExpiration
    s.oldRest
  let counter ← s.counter.add (.atom [1])
  let expiration ← priced.registeredTime.add pricing.buyTime
  let create ← createHandle M K counter (.atom handleHash) s.neighbors expiration
    s.other.newRest.toClvm
  let resolved ← singletonHash M K s.other.newRest.resolvedLauncherId s.newResolvedInnerPuzzleHash
  let approvals ← consumePrecommit 'x' 'e' 'f' precommit priced.totalPrice owner resolved
  return (truth, .ofList [.atom [81], pricing.buyTime]
    -- the handle actually expired
    :: .ofList [.atom [81], pricing.currentExpiration] :: spend :: create :: approvals)

/-! ## What both compute -/

/-- What is known before the resolved singleton is looked at. -/
structure ExpireShared where
  solution : ExpireSolution
  precommitCoin : Bytes
  owner : Bytes
  conditions : List Condition

/-- `expire.rue` up to its last `if`. -/
def expireShared (M : Machine) (K : ConstantTrees) (truth solution : Clvm) :
    Option ExpireShared := do
  let t ← XchandlesStateTruth.ofClvm? truth
  let s ← ExpireSolution.ofClvm? solution
  let pricing := s.pricing.solution
  let catMakerHash ← M.hash.treeHash s.catMaker.puzzle
  let catMakerMatches ← (Clvm.atom catMakerHash).eq t.state.catMakerPuzzleHash
  let pricingHash ← M.hash.treeHash s.pricing.puzzle
  let pricingMatches ← (Clvm.atom pricingHash).eq t.state.expiredHandlePricingPuzzleHash
  assertThat (catMakerMatches && pricingMatches)
  let handleHash ← M.hash.treeHashAtom pricing.handle
  let priced ← runPricing M s.pricing.puzzle pricing.toClvm
  let inner ← Rue.Xchandles.precommitInnerPuzzleHash M.hash K s.other.refundPuzzleHashHash
    (s.precommitValue t.state)
  let precommitCoin ← runCatMaker M s.catMaker.puzzle inner s.catMaker.solution
  let owner ← Rue.Xchandles.singletonPuzzleHash M.hash K s.other.newRest.ownerLauncherId
    s.newOwnerInnerPuzzleHash
  let spend ← Rue.spendSlotOf M.hash K.handleSlot1stCurryHash
    (s.slot handleHash s.counter pricing.currentExpiration s.oldRest)
  let counter ← s.counter.increment
  let expiration ← priced.registeredTime.add pricing.buyTime
  let create ← Rue.createSlotOf M.hash K.handleSlot1stCurryHash
    (s.slot handleHash counter expiration s.other.newRest.toClvm)
  return ⟨s, precommitCoin, owner, expireConditions [] pricing.buyTime pricing.currentExpiration
    spend create precommitCoin priced.totalPrice owner⟩

section

variable {M : Machine} {K : ConstantTrees}

theorem rue_expire_eq (truth solution : Clvm) :
    Rue.Xchandles.expire M K truth solution = (do
      let c ← expireShared M K truth solution
      let approval ← Rue.Xchandles.expireResolvedApproval M.hash K c.solution.other.newRest
        c.solution.newResolvedInnerPuzzleHash c.precommitCoin
      return (truth, approval ++ c.conditions)) := by
  unfold Rue.Xchandles.expire expireShared
  refine bind_congr_bind fun t => bind_congr_bind fun s => bind_congr_bind fun catMakerHash => ?_
  refine bind_congr_bind fun catMakerMatches => bind_congr_bind fun pricingHash => ?_
  refine bind_congr_bind fun pricingMatches => bind_congr_bind fun _ => ?_
  refine bind_congr_bind fun handleHash => bind_congr_bind fun priced => ?_
  refine bind_congr_bind fun inner => bind_congr_bind fun precommitCoin => ?_
  refine bind_congr_bind fun owner => bind_congr_bind fun spend => ?_
  refine bind_congr_bind fun counter => bind_congr_bind fun expiration => ?_
  refine bind_congr_bind fun create => ?_
  rfl

theorem expire_eq (hH : CurryConstants M.hash) (truth solution : Clvm) :
    expire M K truth solution = (do
      let c ← expireShared M K truth solution
      let resolved ← Rue.Xchandles.singletonPuzzleHash M.hash K
        c.solution.other.newRest.resolvedLauncherId c.solution.newResolvedInnerPuzzleHash
      return (truth, c.conditions.map Condition.toClvm ++ if c.owner = resolved then []
        else [Condition.toClvm (.receiveMessage puzzlePuzzle (.tagged 'f' c.precommitCoin)
          [.atom resolved])])) := by
  unfold expire expireShared
  simp only [spendHandle_eq hH, createHandle_eq hH, singletonHash_eq hH,
    precommitInnerPuzzleHash_eq hH, consumePrecommit_eq]
  refine bind_congr_bind fun t => bind_congr_bind fun s => bind_congr_bind fun catMakerHash => ?_
  refine bind_congr_bind fun catMakerMatches => bind_congr_bind fun pricingHash => ?_
  refine bind_congr_bind fun pricingMatches => bind_congr_bind fun _ => ?_
  refine bind_congr_bind fun handleHash => bind_congr_bind fun priced => ?_
  refine bind_congr_bind fun inner => ?_
  unfold runCatMaker
  cases M.eval s.catMaker.puzzle (.pair (.atom inner) s.catMaker.solution) with
  | none => rfl
  | some precommit =>
    cases precommit with
    | pair _ _ =>
      have hnone : ∀ (a b : Clvm), (Clvm.pair a b).bytes? = none := fun _ _ => rfl
      simp only [↓some_bind, hnone, Option.map_none, none_bind, bind_none]
    | atom b =>
      rw [some_bind, some_bind]
      refine bind_congr_bind fun owner => map_bind_congr_bind fun spend => ?_
      refine bind_congr_bind fun counter => bind_congr_bind fun expiration => ?_
      refine map_bind_congr_bind fun create => ?_
      refine congrArg _ (funext fun resolved => ?_)
      rw [bytes?_atom, Option.map_some, some_bind]
      unfold approvalConditions expireConditions
      by_cases hsame : owner = resolved
      · simp only [if_pos hsame]
        rfl
      · simp only [if_neg hsame]
        rfl

end

/-! ## When they agree -/

/-- The puzzle hash of a singleton with the constants of a registry, by SHA-256. -/
def singletonHash256 (K : ConstantTrees) (launcherId innerPuzzleHash : Clvm) : Option Bytes :=
  Rue.Xchandles.singletonPuzzleHash .sha256 K launcherId innerPuzzleHash

/-- The puzzle hashes of the new owner and of the new resolved singleton collide:
different singletons have the same. -/
def Collide (K : ConstantTrees) (s : ExpireSolution) : Prop :=
  (s.other.newRest.ownerLauncherId, s.newOwnerInnerPuzzleHash)
      ≠ (s.other.newRest.resolvedLauncherId, s.newResolvedInnerPuzzleHash) ∧
    singletonHash256 K s.other.newRest.ownerLauncherId s.newOwnerInnerPuzzleHash
      = singletonHash256 K s.other.newRest.resolvedLauncherId s.newResolvedInnerPuzzleHash

/-- Comparing the launcher ids comes to the same as comparing the puzzle hashes. -/
def SameApprovals (K : ConstantTrees) (s : ExpireSolution) : Prop :=
  match s.other.newRest.ownerLauncherId, s.other.newRest.resolvedLauncherId with
  | .atom owner, .atom resolved =>
      if owner = resolved then s.newOwnerInnerPuzzleHash = s.newResolvedInnerPuzzleHash ∨ Collide K s
      else ¬ Collide K s
  -- a launcher id that is a pair can be hashed, but not compared
  | _, _ => s.newResolvedInnerPuzzleHash.bytes? = none

/-- The approval of the resolved singleton, as the Chialisp action asks for it. -/
def clspResolvedApproval (K : ConstantTrees) (launcherId innerPuzzleHash : Clvm)
    (precommitCoin owner : Bytes) : Option (List Condition) := do
  let resolved ← singletonHash256 K launcherId innerPuzzleHash
  return if owner = resolved then []
    else [.receiveMessage puzzlePuzzle (.tagged 'f' precommitCoin) [.atom resolved]]

section

variable {K : ConstantTrees}

/-- A singleton whose inner puzzle is given by an atom has a puzzle hash, if any has. -/
theorem singletonHash256_eq_none {i p r : Clvm} {d : Bytes} (h : singletonHash256 K i p = some d)
    (p' : Clvm) : singletonHash256 K r p' = none ↔ p'.bytes? = none := by
  unfold singletonHash256 Rue.Xchandles.singletonPuzzleHash Rue.singletonPuzzleHash at h ⊢
  obtain ⟨struct, -, hcurry⟩ := bind_elim h
  obtain ⟨m, hm⟩ : ∃ m, K.singletonModHash = .atom m := by
    obtain ⟨_, -, he⟩ := HashOracle.curryTreeHash_eq_some.1 hcurry
    obtain ⟨_, _, _, _, _, _, -, -, -, hquoted, -⟩ := HashOracle.hashExpression_eq_some.1 he
    obtain ⟨_, m, -, hm, -⟩ := HashOracle.treeHashPair_eq_some.1 hquoted
    exact ⟨m, hm⟩
  obtain ⟨struct', hstruct⟩ := HashOracle.sha256_total.treeHash
    (.pair K.singletonModHash (.pair r K.singletonLauncherPuzzleHash))
  rw [hstruct, some_bind, hm]
  cases p' with
  | atom b =>
    obtain ⟨d', hd'⟩ := HashOracle.sha256_total.curryTreeHash m [struct', b]
    have hsome : HashOracle.sha256.curryTreeHash (.atom m) [.atom struct', .atom b] = some d' := hd'
    rw [hsome, bytes?_atom]
    simp
  | pair l r =>
    have hnone : HashOracle.sha256.curryTreeHash (.atom m) [.atom struct', .pair l r] = none := by
      rw [Option.eq_none_iff_forall_ne_some]
      intro d' hd'
      obtain ⟨b, hb⟩ := HashOracle.atom_of_curryTreeHash hd' (.pair l r) (by simp)
      cases hb
    rw [hnone]
    simp [Clvm.bytes?]

/-- Conditions in front of others or behind them. -/
theorem outcome_eq_iff (truth : Clvm) (as bs cs : List Condition) :
    outcome (truth, cs.map Condition.toClvm ++ as.map Condition.toClvm)
        = outcome (asTrees (truth, bs ++ cs)) ↔
      (as.map Condition.toClvm : Multiset Clvm) = (bs.map Condition.toClvm : List Clvm) := by
  unfold outcome asTrees
  simp only [List.map_append, Prod.mk.injEq, true_and, ← Multiset.coe_add]
  rw [add_comm, add_left_inj]

/-- Without a launcher id to compare, the Rue action raises. -/
theorem approvals_eq_iff_of_raises {r p' : Clvm} {owner i p : _} (precommitCoin : Bytes)
    (howner : singletonHash256 K i p = some owner) (f : List Condition → Clvm × Multiset Clvm) :
    (clspResolvedApproval K r p' precommitCoin owner).map f = none ↔ p'.bytes? = none := by
  rw [← singletonHash256_eq_none howner (r := r) p', Option.map_eq_none_iff]
  unfold clspResolvedApproval
  cases singletonHash256 K r p' with
  | none => exact iff_of_true rfl rfl
  | some d => exact iff_of_false (Option.some_ne_none _) (Option.some_ne_none _)

theorem expireResolvedApproval_same (H : HashOracle) (K : ConstantTrees) (o : Bytes) (p' : Clvm)
    (precommitCoin : Bytes) :
    Rue.Xchandles.expireResolvedApproval H K ⟨.atom o, .atom o⟩ p' precommitCoin = some [] := by
  have heq : (Clvm.atom o).eq (.atom o) = some true := by
    unfold Clvm.eq
    simp [Clvm.bytes?]
  unfold Rue.Xchandles.expireResolvedApproval
  rw [heq]
  rfl

theorem expireResolvedApproval_ne {o r : Bytes} (h : o ≠ r) (p' : Clvm) (precommitCoin : Bytes) :
    Rue.Xchandles.expireResolvedApproval .sha256 K ⟨.atom o, .atom r⟩ p' precommitCoin
      = (singletonHash256 K (.atom r) p').map fun resolved =>
          [.receiveMessage puzzlePuzzle (.tagged 'f' precommitCoin) [.atom resolved]] := by
  have heq : (Clvm.atom o).eq (.atom r) = some false := by
    unfold Clvm.eq
    simp [Clvm.bytes?, h]
  unfold Rue.Xchandles.expireResolvedApproval
  rw [heq]
  show (singletonHash256 K (.atom r) p' >>= _) = _
  cases singletonHash256 K (.atom r) p' <;> rfl

theorem approvals_eq_iff {s : ExpireSolution} {owner : Bytes} (precommitCoin : Bytes)
    (howner : singletonHash256 K s.other.newRest.ownerLauncherId s.newOwnerInnerPuzzleHash
      = some owner) (truth : Clvm) (cs : List Condition) :
    ((clspResolvedApproval K s.other.newRest.resolvedLauncherId s.newResolvedInnerPuzzleHash
        precommitCoin owner).map fun as =>
          outcome (truth, cs.map Condition.toClvm ++ as.map Condition.toClvm))
      = ((Rue.Xchandles.expireResolvedApproval .sha256 K s.other.newRest
          s.newResolvedInnerPuzzleHash precommitCoin).map fun bs =>
          outcome (asTrees (truth, bs ++ cs))) ↔ SameApprovals K s := by
  obtain ⟨pricing, catMaker, ⟨⟨o, r⟩, refund, secret⟩, counter, neighbors, oldRest, p, p'⟩ := s
  unfold SameApprovals Collide
  simp only at howner ⊢
  cases o with
  | pair _ _ => exact approvals_eq_iff_of_raises precommitCoin howner _
  | atom o =>
    cases r with
    | pair _ _ => exact approvals_eq_iff_of_raises precommitCoin howner _
    | atom r =>
      by_cases hsame : o = r
      · -- the Rue action asks for no second approval
        subst hsame
        rw [expireResolvedApproval_same]
        simp only [if_true, howner]
        unfold clspResolvedApproval
        cases hresolved : singletonHash256 K (.atom o) p' with
        | none =>
          refine iff_of_false (fun h => Option.some_ne_none _ h.symm) ?_
          rintro (rfl | ⟨-, h⟩)
          · exact Option.some_ne_none _ (howner.symm.trans hresolved)
          · exact Option.some_ne_none _ h
        | some resolved =>
          rw [some_bind, Option.pure_def, Option.map_some, Option.map_some, Option.some.injEq,
            outcome_eq_iff]
          by_cases hd : owner = resolved
          · rw [if_pos hd, hd]
            refine iff_of_true rfl ?_
            by_cases hp : p = p'
            · exact Or.inl hp
            · exact Or.inr ⟨fun h => hp (Prod.mk.inj h).2, rfl⟩
          · rw [if_neg hd]
            refine iff_of_false (fun h => by simpa using congrArg Multiset.card h) ?_
            rintro (rfl | ⟨-, h⟩)
            · exact hd (Option.some.inj (howner.symm.trans hresolved))
            · exact hd (Option.some.inj h)
      · rw [expireResolvedApproval_ne hsame]
        simp only [if_neg hsame, howner]
        unfold clspResolvedApproval
        cases hresolved : singletonHash256 K (.atom r) p' with
        | none => exact iff_of_true rfl fun h => Option.some_ne_none _ h.2
        | some resolved =>
          rw [some_bind, Option.pure_def, Option.map_some, Option.map_some, Option.map_some,
            Option.some.injEq, outcome_eq_iff]
          by_cases hd : owner = resolved
          · rw [if_pos hd, hd]
            refine iff_of_false (fun h => by simpa using congrArg Multiset.card h) ?_
            exact fun h => h ⟨fun he => hsame (Clvm.atom.inj (Prod.mk.inj he).1), rfl⟩
          · rw [if_neg hd]
            exact iff_of_true rfl fun h => hd (Option.some.inj h.2)

/-- The solution, and the puzzle hash of the new owner. -/
theorem of_expireShared {M : Machine} {truth solution : Clvm} {c : ExpireShared}
    (h : expireShared M K truth solution = some c) :
    ExpireSolution.ofClvm? solution = some c.solution ∧
      Rue.Xchandles.singletonPuzzleHash M.hash K c.solution.other.newRest.ownerLauncherId
        c.solution.newOwnerInnerPuzzleHash = some c.owner := by
  obtain ⟨t, -, h⟩ := bind_elim h
  obtain ⟨s, hs, h⟩ := bind_elim h
  obtain ⟨catMakerHash, -, h⟩ := bind_elim h
  obtain ⟨catMakerMatches, -, h⟩ := bind_elim h
  obtain ⟨pricingHash, -, h⟩ := bind_elim h
  obtain ⟨pricingMatches, -, h⟩ := bind_elim h
  obtain ⟨_, -, h⟩ := bind_elim h
  obtain ⟨handleHash, -, h⟩ := bind_elim h
  obtain ⟨priced, -, h⟩ := bind_elim h
  obtain ⟨inner, -, h⟩ := bind_elim h
  obtain ⟨precommitCoin, -, h⟩ := bind_elim h
  obtain ⟨owner, howner, h⟩ := bind_elim h
  obtain ⟨spend, -, h⟩ := bind_elim h
  obtain ⟨counter, -, h⟩ := bind_elim h
  obtain ⟨expiration, -, h⟩ := bind_elim h
  obtain ⟨create, -, h⟩ := bind_elim h
  cases h
  exact ⟨hs, howner⟩

/-- From where the two actions part, their approvals decide. -/
theorem expire_agrees_iff_of_shared (eval : Clvm → Clvm → Option Clvm) {truth solution : Clvm}
    {c : ExpireShared} (hc : expireShared ⟨.sha256, eval⟩ K truth solution = some c) :
    (expire ⟨.sha256, eval⟩ K truth solution).map outcome
        = ((Rue.Xchandles.expire ⟨.sha256, eval⟩ K truth solution).map asTrees).map outcome ↔
      SameApprovals K c.solution := by
  rw [← approvals_eq_iff c.precommitCoin (of_expireShared hc).2 truth c.conditions,
    expire_eq sha256_curryConstants, rue_expire_eq, hc, some_bind, some_bind]
  have hclsp : ∀ x : Option Bytes, ((do
      let resolved ← x
      return (truth, c.conditions.map Condition.toClvm ++ if c.owner = resolved then []
        else [Condition.toClvm (.receiveMessage puzzlePuzzle (.tagged 'f' c.precommitCoin)
          [.atom resolved])])).map outcome)
      = (do
        let resolved ← x
        return if c.owner = resolved then []
          else [Condition.receiveMessage puzzlePuzzle (.tagged 'f' c.precommitCoin)
            [.atom resolved]]).map fun as : List Condition =>
              outcome (truth, c.conditions.map Condition.toClvm ++ as.map Condition.toClvm) := by
    intro x
    cases x with
    | none => rfl
    | some resolved =>
      by_cases hd : c.owner = resolved
      · simp [hd]
      · simp [hd]
  have hrue : ∀ x : Option (List Condition), (((do
      let approval ← x
      return (truth, approval ++ c.conditions)).map asTrees).map outcome)
      = x.map fun bs => outcome (asTrees (truth, bs ++ c.conditions)) := by
    intro x
    cases x <;> rfl
  rw [hrue, clspResolvedApproval, ← hclsp]
  rfl

end

/-- **The two actions agree if and only if** both raise before they come to the approval
of the resolved singleton, or comparing launcher ids decides about it as comparing
puzzle hashes does. -/
theorem expire_agrees_iff (eval : Clvm → Clvm → Option Clvm) (K : ConstantTrees)
    (truth solution : Clvm) :
    (expire ⟨.sha256, eval⟩ K truth solution).map outcome
        = ((Rue.Xchandles.expire ⟨.sha256, eval⟩ K truth solution).map asTrees).map outcome ↔
      expireShared ⟨.sha256, eval⟩ K truth solution = none ∨
        ∃ s, ExpireSolution.ofClvm? solution = some s ∧ SameApprovals K s := by
  cases hc : expireShared ⟨.sha256, eval⟩ K truth solution with
  | none =>
    refine iff_of_true ?_ (Or.inl rfl)
    rw [expire_eq sha256_curryConstants, rue_expire_eq, hc]
    rfl
  | some c =>
    rw [expire_agrees_iff_of_shared eval hc]
    have hs := (of_expireShared hc).1
    constructor
    · intro h
      exact Or.inr ⟨c.solution, hs, h⟩
    · rintro (h | ⟨s, hs', h⟩)
      · cases h
      · cases hs.symm.trans hs'
        exact h

/-! ## An expired handle that goes to one singleton -/

namespace ExpireExample

/-- Thirty-two bytes. -/
def bytes32 (b : Byte) : Bytes := List.replicate 32 b

def constants : ConstantTrees where
  singletonModHash := .atom (bytes32 1)
  singletonLauncherPuzzleHash := .atom (bytes32 2)
  precommit1stCurryHash := .atom (bytes32 3)
  handleSlot1stCurryHash := .atom (bytes32 4)
  updateSlot1stCurryHash := .atom (bytes32 5)
  offerModHash := .atom (bytes32 6)
  payoutPuzzleHash := .atom (bytes32 7)
  relativeBlockHeight := .atom [32]

/-- A CAT maker that names one puzzle hash, and a price of 10 for 366 seconds. -/
def catMaker : Clvm := .quoted (.atom (bytes32 8))

def pricing : Clvm := .quoted (.pair (.ofInt 10) (.ofInt 366))

def truth : Clvm := .pair .nil
  (.pair (.atom (Skeleton.ofClvm catMaker).hash)
    (.pair .nil (.atom (Skeleton.ofClvm pricing).hash)))

/-- Owner and resolved singleton are one, but the inner puzzle hash that is revealed
for the second is not that of the first. -/
def solution : ExpireSolution where
  pricing := ⟨pricing, ⟨.ofInt 2000, .ofInt 1000, .atom [97, 98, 99, 100], .nil⟩⟩
  catMaker := ⟨catMaker, .nil⟩
  other := ⟨⟨.atom (bytes32 9), .atom (bytes32 9)⟩, .atom (bytes32 10), .nil⟩
  counter := .nil
  neighbors := .pair (.atom (bytes32 11)) (.atom (bytes32 12))
  oldRest := .pair (.atom (bytes32 13)) (.atom (bytes32 14))
  newOwnerInnerPuzzleHash := .atom (bytes32 15)
  newResolvedInnerPuzzleHash := .atom (bytes32 16)

/-- CLVM, with fuel for the two programs. -/
def eval : Clvm → Clvm → Option Clvm := Clvm.run .sha256 (fun _ _ => none) 1

theorem expireShared_isSome :
    (expireShared ⟨.sha256, eval⟩ constants truth solution.toClvm).isSome = true := by
  decide +kernel

theorem not_sameApprovals : ¬ SameApprovals constants solution := by
  have hhash : singletonHash256 constants (.atom (bytes32 9)) (.atom (bytes32 15))
      ≠ singletonHash256 constants (.atom (bytes32 9)) (.atom (bytes32 16)) := by decide +kernel
  rintro (h | ⟨-, h⟩)
  · exact absurd h (by decide)
  · exact hhash h

end ExpireExample

/-- The Rue action takes one approval for a handle that goes to a singleton which is
revealed with two inner puzzle hashes; the Chialisp action asks for two. -/
theorem expire_disagrees :
    (expire ⟨.sha256, ExpireExample.eval⟩ ExpireExample.constants ExpireExample.truth
        ExpireExample.solution.toClvm).map outcome
      ≠ ((Rue.Xchandles.expire ⟨.sha256, ExpireExample.eval⟩ ExpireExample.constants
        ExpireExample.truth ExpireExample.solution.toClvm).map asTrees).map outcome := by
  obtain ⟨c, hc⟩ := Option.isSome_iff_exists.1 ExpireExample.expireShared_isSome
  have hs : c.solution = ExpireExample.solution :=
    Option.some.inj ((of_expireShared hc).1.symm.trans (ExpireSolution.ofClvm?_eq_some.2 rfl))
  intro h
  have happrovals := (expire_agrees_iff_of_shared ExpireExample.eval hc).1 h
  rw [hs] at happrovals
  exact ExpireExample.not_sameApprovals happrovals

end SlotMachine.Chialisp
