import SlotMachine.Catalog.Uniqueness

/-!
# CATalog: what a precommit coin registers

A precommit coin commits to a TAIL and to the owner of its NFT.  This file shows
that nobody can use the coin to register anything else, and that the NFT whose
spend a registration asserts can only be the one of this TAIL and this owner.

* `Makes`, `BuiltFor` — the coins that a CAT maker makes from an opening;
  `BuiltFor.unique` — **a coin has one opening**.
* `RegisterRun.send_mem`, `RefundRun.send_mem` — the coin that an action sends
  its message to.
* `Registers` — what a registration does, in terms of an opening.
* `registration_binding` — **two registrations that are paid by one coin register
  one TAIL for one owner.**
-/

namespace SlotMachine.Catalog

/-! ## Precommit coins -/

/-- A CAT maker makes a coin with the given opening, when it is run with `solution`. -/
def Makes (M : Machine) (K : Constants) (maker solution : Clvm) (o : Opening) (ph : Bytes) : Prop :=
  ∃ inner, precommitInnerPuzzleHash M.hash K o = some inner ∧
    runCatMaker M maker inner solution = some ph

/-- A precommit coin that the CAT maker of a state made, with its opening. -/
def BuiltFor (M : Machine) (K : Constants) (state : CatalogState) (o : Opening)
    (coin : PrecommitCoin) : Prop :=
  ∃ maker d solution, M.hash.treeHash maker = some d ∧ state.catMakerPuzzleHash = .atom d ∧
    Makes M K maker solution o coin.puzzleHash

/-- The CAT maker of a state binds the inner puzzle. -/
def CatalogState.BindsInner (M : Machine) (state : CatalogState) : Prop :=
  ∀ maker d, M.hash.treeHash maker = some d → state.catMakerPuzzleHash = .atom d →
    SlotMachine.BindsInner M maker

section

variable {M : Machine} {K : Constants} {truth solution : Clvm} {coin : PrecommitCoin}

/-- A coin has one opening for the CAT maker of a state. -/
theorem BuiltFor.unique (hH : M.hash.CollisionFree) {state state' : CatalogState}
    (hmaker : state.BindsInner M)
    (hstate : state'.catMakerPuzzleHash = state.catMakerPuzzleHash) {o o' : Opening}
    (h : BuiltFor M K state o coin) (h' : BuiltFor M K state' o' coin) : o = o' := by
  obtain ⟨maker, d, s, hd, hc, inner, hinner, hrun⟩ := h
  obtain ⟨maker', d', s', hd', hc', inner', hinner', hrun'⟩ := h'
  obtain rfl := Clvm.atom.inj (hc.symm.trans (hstate.symm.trans hc'))
  obtain rfl := HashOracle.treeHash_inj hH hd hd'
  obtain rfl := hmaker maker d hd hc hrun hrun'
  exact precommitInnerPuzzleHash_inj hH hinner hinner'

/-- What an action computes is what the CAT maker makes. -/
theorem makes_iff {maker : Clvm} {o : Opening} {ph : Bytes} :
    Makes M K maker o.catMakerSolution o ph ↔
      precommitPuzzleHash M K maker o = some (.atom ph) := by
  rw [precommitPuzzleHash_eq_some]
  refine exists_congr fun inner => and_congr_right fun _ => runCatMaker_eq_some

/-! ## Where the messages go -/

variable {mode : Clvm}

/-- A registration sends one message to a precommit coin. -/
theorem RegisterRun.send_mem (r : RegisterRun M K truth solution) :
    coin.send mode ∈ r.conditions ↔ mode = payOut ∧ r.precommit = .atom coin.puzzleHash ∧
      r.t.state.registrationPrice = .atom coin.amount := by
  simp only [conditions, registerConditions, PrecommitCoin.send, spendCoin, createSlotCoin,
    puzzlePuzzle, puzzlePuzzleAmount, payOut, List.mem_cons, List.not_mem_nil,
    Condition.sendMessage.injEq, List.cons.injEq, reduceCtorEq, false_or, or_false, and_true,
    true_and, Nat.reduceEqDiff, false_and]
  exact and_congr_right fun _ => and_congr eq_comm eq_comm

/-- A refund sends one message to a precommit coin. -/
theorem RefundRun.send_mem (r : RefundRun M K truth solution) :
    coin.send mode ∈ r.conditions ↔ mode = refunded ∧ r.precommit = .atom coin.puzzleHash ∧
      r.s.precommitAmount = .atom coin.amount := by
  have hslot : coin.send mode ∉ r.slot := by
    have h := r.slot_eq
    cases hv : r.valid with
    | false =>
        rw [hv] at h
        rw [← Option.some.inj h]
        exact List.not_mem_nil
    | true =>
        rw [hv] at h
        obtain ⟨n, c, spent, created, -, -, -, hcs⟩ := keepSlot_eq_some.1 h
        rw [hcs]
        simp [PrecommitCoin.send, spendCoin, createSlotCoin, puzzlePuzzle, puzzlePuzzleAmount]
  rw [conditions, refundConditions, List.mem_append, or_iff_right hslot]
  simp only [PrecommitCoin.send, refunded, List.mem_cons, List.not_mem_nil, reduceCtorEq,
    Condition.sendMessage.injEq, List.cons.injEq, false_or, or_false, and_true, true_and]
  exact and_congr_right fun _ => and_congr eq_comm eq_comm

/-- The opening a registration reveals. -/
def RegisterRun.opening (r : RegisterRun M K truth solution) : Opening := r.s.opening r.t.state

/-- The opening a refund reveals. -/
def RefundRun.opening (r : RefundRun M K truth solution) : Opening := r.s.opening r.catMakerHash

theorem RegisterRun.builtFor (r : RegisterRun M K truth solution)
    (hph : r.precommit = .atom coin.puzzleHash) : BuiltFor M K r.t.state r.opening coin :=
  ⟨_, _, _, r.hashes_catMaker, r.catMaker_eq, makes_iff.2 (by rw [← hph]; exact r.makes)⟩

theorem RefundRun.builtFor (r : RefundRun M K truth solution)
    (hph : r.precommit = .atom coin.puzzleHash)
    (hown : r.t.state.catMakerPuzzleHash = .atom r.catMakerHash) :
    BuiltFor M K r.t.state r.opening coin :=
  ⟨_, _, _, r.hashes_catMaker, hown, makes_iff.2 (by rw [← hph]; exact r.makes)⟩

/-! ## What a registration does -/

/-- A registration carries out an opening: its TAIL, owner and CAT maker solution
are those of the opening, the value that is committed to is
`sha256(2 || TAIL || sha256(1 || h))`, and the spend it asserts is that of the
first coin of an NFT for this owner, which descends from the prelauncher of this
TAIL that the registry coin itself creates. -/
structure Registers (M : Machine) (K : Constants) (solution : Clvm) (cs : List Condition)
    (o : Opening) : Prop where
  reads : ∃ s : RegisterSolution, RegisterSolution.ofClvm? solution = some s ∧ s.other = o.data ∧
    s.catMaker.solution = o.catMakerSolution
  commits : ∃ tail h hh value inner, o.data.tailHash = .atom tail ∧
    M.hash.treeHash (.pair o.data.initialNftOwnerPh (.pair o.catMakerHash o.catMakerSolution))
      = some h ∧
    M.hash.digest (1 :: h) = some hh ∧ M.hash.digest (2 :: (tail ++ hh)) = some value ∧
    M.hash.curryTreeHash (.atom K.precommit1stCurryHash)
      [o.data.refundPuzzleHashHash, .atom value] = some inner
  launches : ∃ (myId : Clvm) (nftId : Bytes) (x : Launches M.hash K.nftPack
      K.uniquenessPrelauncher1stCurryHash myId o.data.tailHash o.data.initialNftOwnerPh nftId),
    (∀ id, .assertMyCoinId id ∈ cs ↔ id = myId) ∧
    .createCoin (.atom x.prelauncherPuzzleHash) .nil [] ∈ cs ∧
    ∀ id, .assertConcurrentSpend id ∈ cs ↔ id = .atom nftId

/-- A registration carries out the opening it reveals. -/
theorem RegisterRun.registers (r : RegisterRun M K truth solution) :
    Registers M K solution r.conditions r.opening where
  reads := ⟨r.s, RegisterSolution.ofClvm?_eq_some.2 r.solution_eq, rfl, rfl⟩
  commits := by
    obtain ⟨inner, hinner, -⟩ := precommitPuzzleHash_eq_some.1 r.makes
    obtain ⟨value, hvalue, hcurry⟩ := precommitInnerPuzzleHash_eq_some.1 hinner
    obtain ⟨tail, h, hh, htail, hrest, hhh, hd⟩ := precommitValueHash_eq_some.1 hvalue
    exact ⟨tail, h, hh, value, inner, htail, hrest, hhh, hd, hcurry⟩
  launches := by
    refine ⟨r.s.myId, r.nftId, r.launches, fun id => ?_, List.mem_cons_self .., fun id => ?_⟩
    · simp [conditions, registerConditions, spendCoin, createSlotCoin]
    · simp [conditions, registerConditions, spendCoin, createSlotCoin]

/-- **What a precommit coin registers.**  Two registrations that are paid by one
coin, at states with one CAT maker, carry out the same opening, which is the only
one the coin has: the same TAIL for the same owner, with the same CAT maker
solution. -/
theorem registration_binding (hH : M.hash.CollisionFree) {t t' : CatalogStateTruth}
    (hstate : t'.state.catMakerPuzzleHash = t.state.catMakerPuzzleHash)
    (hmaker : ∀ maker d, M.hash.treeHash maker = some d → t.state.catMakerPuzzleHash = .atom d →
      IsCatMaker M maker)
    {solution solution' : Clvm} {out out' : Clvm × List Condition}
    (hrun : register M K t.toClvm solution = some out)
    (hrun' : register M K t'.toClvm solution' = some out')
    (hpay : coin.send payOut ∈ out.2) (hpay' : coin.send payOut ∈ out'.2) :
    ∃ o, BuiltFor M K t.state o coin ∧ (∀ o', BuiltFor M K t.state o' coin → o' = o) ∧
      Registers M K solution out.2 o ∧ Registers M K solution' out'.2 o := by
  have hbinds : t.state.BindsInner M := fun maker d hd hm => (hmaker maker d hd hm).bindsInner hH
  generalize htruth : t.toClvm = truth at hrun
  generalize htruth' : t'.toClvm = truth' at hrun'
  obtain ⟨r, rfl⟩ := register_eq_some.1 hrun
  obtain ⟨r', rfl⟩ := register_eq_some.1 hrun'
  obtain rfl : t = r.t := CatalogStateTruth.toClvm_injective (htruth.trans r.truth_eq)
  obtain rfl : t' = r'.t := CatalogStateTruth.toClvm_injective (htruth'.trans r'.truth_eq)
  have ho := r.builtFor (r.send_mem.1 hpay).2.1
  have ho' := r'.builtFor (r'.send_mem.1 hpay').2.1
  refine ⟨r.opening, ho, fun o' h' => (ho.unique hH hbinds rfl h').symm, r.registers, ?_⟩
  rw [ho.unique hH hbinds hstate ho']
  exact r'.registers

end

namespace Example

theorem isCatMaker : ∀ maker d, machine.hash.treeHash maker = some d →
    state.catMakerPuzzleHash = .atom d → IsCatMaker machine maker := by
  intro maker d hd hstate
  obtain rfl : makerHash = d := Clvm.atom.inj hstate
  rw [HashOracle.treeHash_inj collisionFree hd treeHash_maker]
  exact isCatMaker_defaultCatMakerProgram _ _ 6 _ _

theorem bindsInner : state.BindsInner machine := fun maker d hd hm =>
  (isCatMaker maker d hd hm).bindsInner collisionFree

theorem pays : coin.send payOut ∈ registration.conditions :=
  registration.send_mem.2 ⟨rfl, rfl, rfl⟩

theorem pays_later : coin.send payOut ∈ laterRegistration.conditions :=
  laterRegistration.send_mem.2 ⟨rfl, rfl, rfl⟩

end Example

/-- Two registrations with one precommit coin, next to different slots, are of the same TAIL for
the same owner. -/
theorem registration_binding_example : ∃ o,
    BuiltFor Example.machine Example.constants Example.state o Example.coin ∧
    Registers Example.machine Example.constants Example.solution.toClvm
      Example.registration.conditions o ∧
    Registers Example.machine Example.constants (Example.solutionAt [1]).toClvm
      Example.laterRegistration.conditions o := by
  have hrun := register_eq_some.2 ⟨Example.registration, rfl⟩
  have hrun' := register_eq_some.2 ⟨Example.laterRegistration, rfl⟩
  have hmaker := Example.isCatMaker
  obtain ⟨o, ho, -, hregisters, hregisters'⟩ := @registration_binding _ _ _ Example.collisionFree
    ⟨.nil, Example.state⟩ ⟨.nil, Example.state⟩ rfl hmaker _ _ _ _ hrun hrun' Example.pays
    Example.pays_later
  exact ⟨o, ho, hregisters, hregisters'⟩

end SlotMachine.Catalog
