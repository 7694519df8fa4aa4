import SlotMachine.Chain.TopLayer
import SlotMachine.Onchain.Slots

/-!
# The spends of a registry

On the chain a registry is a singleton whose inner puzzle is the action layer, with coins
of amount zero for its slots.

* `Programs`, `Programs.Lawful` — the programs, and what they are known to do.
* `Carries` — the coin of the singleton carries a state.
* `exists_turn` — **a spend of that coin is a spend of the registry**, and the next coin
  carries the state that this leads to.
* `slot_spend` — **a slot can only be spent if a coin of the singleton created it**, and
  receives one message.
-/

namespace SlotMachine.Onchain

open Lineage Consensus Settlement

/-- The programs of a registry, and the coin it was launched with. -/
structure Programs where
  topLayer : SingletonTopLayer
  launcher : Coin
  launcherId : Bytes
  structHash : Bytes
  actionLayer : Clvm
  layer : Layer
  slot : Clvm

namespace Programs

variable (P : Programs)

/-- A slot with its first arguments. -/
def slotFirst (nonce : Clvm) : Clvm :=
  Clvm.curry P.slot [.pair (.atom P.topLayer.modHash) (.atom P.structHash), nonce]

/-- The inner puzzle of the singleton when the state is `state`. -/
def innerPuzzle (state : Clvm) : Clvm :=
  Clvm.curry P.actionLayer [P.layer.finalizer, .atom P.layer.merkleRoot, state]

/-- What is known of the programs.  The compiled top layer is not part of the repository. -/
structure Lawful (M : Machine) {M₀ : Machine} (R : Contract M₀) (kinds : List Bytes)
    (program : R.Action → Clvm) (tree : Merkle.Tree Bytes) : Prop where
  topLayer : P.topLayer.Computes M
  launcher_id : P.launcher.id M.hash = some P.launcherId
  struct_hash : M.hash.treeHash (P.topLayer.struct P.launcherId) = some P.structHash
  actionLayer_hash : M.hash.treeHash P.actionLayer = some P.layer.constants.actionLayerModHash
  actionLayer : ∀ {state solution out : Clvm}, M.eval (P.innerPuzzle state) solution = some out →
    ∃ s, ActionLayer.main M (P.layer.curried state) s = some out
  layer : P.layer.Runs M R program tree
  slots : ∀ kind ∈ kinds, ∃ nonce, M.hash.treeHash (P.slotFirst nonce) = some kind ∧
    ∀ {value : Bytes} {solution out : Clvm},
      M.eval (Clvm.curry (P.slotFirst nonce) [.atom value]) solution = some out →
      (M.hash.slotMain P.topLayer.modHash P.structHash solution).map encode = some out

variable (H : HashOracle)

/-- The puzzle hash of a coin of the singleton. -/
def Owned (ph : Bytes) : Prop := P.topLayer.IsPuzzleHash H P.launcherId ph

/-- The coins of the singleton that can be spent. -/
def Legit (c : Coin) : Prop := P.topLayer.Legit H P.launcherId P.launcher c

/-- The coin of the singleton carries the state. -/
def Carries (state : Clvm) (c : Coin) : Prop :=
  ∃ inner, P.layer.puzzleHash H state = some inner ∧
    H.curryTreeHash (.atom P.topLayer.modHash) [.atom P.structHash, .atom inner]
      = some c.puzzleHash

/-- No slot is a coin of the singleton. -/
theorem not_owned_of_isSlot {P : Programs} {H : HashOracle} (hH : H.CollisionFree)
    {kinds : List Bytes} {ph : Bytes} (h : IsSlot H kinds ph) : ¬ P.Owned H ph := by
  rintro ⟨structHash, inner, -, hcurry⟩
  obtain ⟨kind, -, d, hslot⟩ := h
  obtain ⟨v, -, hcurry'⟩ := HashOracle.getSlotPuzzleHash_eq_some.1 hslot
  obtain ⟨-, harguments⟩ := HashOracle.curryTreeHash_inj hH hcurry hcurry'
  cases harguments

/-- A coin carries one state. -/
theorem Carries.unique {P : Programs} {H : HashOracle} (hH : H.CollisionFree)
    {state state' : Clvm} {c : Coin} (h : P.Carries H state c) (h' : P.Carries H state' c) :
    state = state' := by
  obtain ⟨inner, hinner, hcurry⟩ := h
  obtain ⟨inner', hinner', hcurry'⟩ := h'
  obtain ⟨-, harguments⟩ := HashOracle.curryTreeHash_inj hH hcurry hcurry'
  simp only [List.cons.injEq, Clvm.atom.injEq, and_true, true_and] at harguments
  obtain rfl := harguments
  exact Layer.puzzleHash_inj hH hinner hinner'

end Programs

section

variable {P : Programs} {M M₀ : Machine} {R : Contract M₀} {kinds : List Bytes}
  {program : R.Action → Clvm} {tree : Merkle.Tree Bytes}

namespace Programs

/-- A coin with a state belongs to the singleton. -/
theorem Lawful.owned (hP : P.Lawful M R kinds program tree) {state : Clvm} {c : Coin}
    (h : P.Carries M.hash state c) : P.Owned M.hash c.puzzleHash := by
  obtain ⟨inner, -, hcurry⟩ := h
  exact ⟨P.structHash, .atom inner, hP.struct_hash, hcurry⟩

/-- A program with the hash of the layer is the layer. -/
theorem Lawful.innerPuzzle_eq (hP : P.Lawful M R kinds program tree) (hH : M.hash.CollisionFree)
    {state v : Clvm} {d : Bytes} (h : P.layer.puzzleHash M.hash state = some d)
    (hv : M.hash.treeHash v = some d) : v = P.innerPuzzle state := by
  obtain ⟨finalizerHash, hfinalizer, h1⟩ := bind_elim h
  obtain ⟨rootHash, hroot, h2⟩ := bind_elim h1
  obtain ⟨stateHash, hstate, hcurry⟩ := bind_elim h2
  obtain ⟨actionLayer, _, modHash, rfl, hmod, hactionLayer, harguments⟩ :=
    HashOracle.exists_curry_of_treeHash hH hv hcurry
  rw [← Clvm.atom.inj hmod] at hactionLayer
  obtain rfl := HashOracle.treeHash_inj hH hactionLayer hP.actionLayer_hash
  cases harguments with
  | cons hfirst hrest =>
    cases hrest with
    | cons hsecond hrest =>
      cases hrest with
      | cons hthird hnil =>
        obtain ⟨_, hsame, hfirst⟩ := hfirst
        rw [← Clvm.atom.inj hsame] at hfirst
        obtain ⟨_, hsame', hsecond⟩ := hsecond
        rw [← Clvm.atom.inj hsame'] at hsecond
        obtain ⟨_, hsame'', hthird⟩ := hthird
        rw [← Clvm.atom.inj hsame''] at hthird
        cases hnil
        obtain rfl := HashOracle.treeHash_inj hH hfirst hfinalizer
        obtain rfl := HashOracle.eq_atom_of_treeHash hH hsecond hroot
        obtain rfl := HashOracle.treeHash_inj hH hthird hstate
        rfl

end Programs

/-! ## A spend of the singleton -/

/-- A spend of the singleton as a spend of the registry. -/
structure Turn (A : Type) where
  spend : Spend
  before : Clvm
  calls : List (Call A)
  after : Clvm
  steps : List (Step A)

/-- The conditions of all steps, as the finalizer puts them. -/
def Turn.actionConditions {A : Type} (t : Turn A) : List Condition :=
  (t.steps.map Step.conditions).reverse.flatten

/-- The spend runs the calls, and its conditions are theirs, after the coin that carries
the next state. -/
structure Turn.Fits (P : Programs) (M : Machine) {M₀ : Machine} (R : Contract M₀)
    (t : Turn R.Action) : Prop where
  carries : P.Carries M.hash t.before t.spend.coin
  runs : SlotMachine.spend R.run t.before t.calls = some (t.after, t.steps)
  after_eq : t.after = R.stateAfter t.before t.calls
  conditions_eq : ∃ inner ph, P.layer.puzzleHash M.hash t.after = some inner ∧
    M.hash.curryTreeHash (.atom P.topLayer.modHash) [.atom P.structHash, .atom inner] = some ph ∧
    t.spend.conditions = .assertMyAmount (.ofInt t.spend.coin.amount) ::
      .assertMyParentId (.atom t.spend.coin.parentCoinInfo) ::
      .createCoin (.atom ph) (.atom [1]) [P.layer.constants.hint] :: t.actionConditions

theorem mem_actionConditions {A : Type} {t : Turn A} {c : Condition} :
    c ∈ t.actionConditions ↔ ∃ step ∈ t.steps, c ∈ step.conditions := by
  rw [Turn.actionConditions, List.mem_flatten]
  constructor
  · rintro ⟨cs, hcs, hc⟩
    obtain ⟨step, hstep, rfl⟩ := List.mem_map.1 (List.mem_reverse.1 hcs)
    exact ⟨step, hstep, hc⟩
  · rintro ⟨step, hstep, hc⟩
    exact ⟨_, List.mem_reverse.2 (List.mem_map_of_mem hstep), hc⟩

/-- What the steps of a turn send to slots and create. -/
theorem effect_actionConditions {A : Type} (t : Turn A) :
    slotSpends t.actionConditions = (Effect.total (t.steps.map Step.effect)).consumed ∧
      zeroCoins t.actionConditions = (Effect.total (t.steps.map Step.effect)).created := by
  unfold Turn.actionConditions
  induction t.steps with
  | nil => exact ⟨rfl, rfl⟩
  | cons step steps ih =>
      obtain ⟨hspends, hcreates⟩ := ih
      constructor
      · rw [List.map_cons, List.reverse_cons, List.flatten_append, slotSpends_append, hspends,
          List.map_cons, Effect.consumed_total_cons, add_comm, List.flatten_singleton]
        rfl
      · rw [List.map_cons, List.reverse_cons, List.flatten_append, zeroCoins_append, hcreates,
          List.map_cons, Effect.created_total_cons, add_comm, List.flatten_singleton]
        rfl

section Turn

variable {t : Turn R.Action}

theorem Turn.Fits.payless (h : t.Fits P M R) : ∀ c ∈ t.actionConditions, c.Payless := by
  intro c hc
  obtain ⟨step, hstep, hc⟩ := mem_actionConditions.1 hc
  exact R.payless (spend_mem h.runs step hstep) c hc

/-- A turn spends a coin of the singleton. -/
theorem Turn.Fits.owned (h : t.Fits P M R) (hP : P.Lawful M R kinds program tree) :
    P.Owned M.hash t.spend.coin.puzzleHash := hP.owned h.carries

/-- The conditions of the steps are conditions of the spend. -/
theorem Turn.Fits.mem_conditions (h : t.Fits P M R) {c : Condition} (hc : c ∈ t.actionConditions) :
    c ∈ t.spend.conditions := by
  obtain ⟨inner, ph, -, -, hconditions⟩ := h.conditions_eq
  rw [hconditions]
  exact List.mem_cons_of_mem _ (List.mem_cons_of_mem _ (List.mem_cons_of_mem _ hc))

/-- A message of the spend is one of its steps. -/
theorem Turn.Fits.send_mem (h : t.Fits P M R) {mode : ℕ} {message : Clvm} {receiver : List Clvm}
    (hc : .sendMessage mode message receiver ∈ t.spend.conditions) :
    .sendMessage mode message receiver ∈ t.actionConditions := by
  obtain ⟨inner, ph, -, -, hconditions⟩ := h.conditions_eq
  rw [hconditions] at hc
  simpa using hc

theorem Turn.Fits.slotSpends_eq (h : t.Fits P M R) :
    slotSpends t.spend.conditions = slotSpends t.actionConditions := by
  obtain ⟨inner, ph, -, -, hconditions⟩ := h.conditions_eq
  rw [hconditions, slotSpends_cons_of_none _ rfl, slotSpends_cons_of_none _ rfl,
    slotSpends_cons_of_none _ rfl]

end Turn

/-- A coin of amount one is read as the finalizer wrote it. -/
theorem ofClvm?_recreation (c : Finalizer.Curried) (inner : Bytes) :
    Condition.ofClvm? (Finalizer.recreation c inner)
      = some (.createCoin (.atom inner) (.atom [1]) [c.hint]) := rfl

/-- **A spend of the singleton is a spend of the registry.** -/
theorem exists_turn (hH : M.hash.CollisionFree) (hP : P.Lawful M R kinds program tree)
    {s : Spend} (hs : s.Readable M) {height timestamp : ℕ}
    (hasserts : ∀ c ∈ s.conditions, s.Asserts height timestamp c) {state : Clvm}
    (h : P.Carries M.hash state s.coin) :
    ∃ calls steps, Turn.Fits P M R ⟨s, state, calls, R.stateAfter state calls, steps⟩ ∧
      ∃ next, P.Carries M.hash (R.stateAfter state calls) next ∧
        Baton.Only (P.Legit M.hash) next s.created := by
  have hbears : P.topLayer.Bears M.hash P.launcherId s.coin := hP.owned h
  obtain ⟨inner, hinner, hcurry⟩ := h
  obtain ⟨innerPuzzle, b, out, -, hb, hconditions, r, hcurry'⟩ :=
    SingletonTopLayer.exists_run hH hP.topLayer hs hbears
  have hstruct : r.structHash = P.structHash :=
    Option.some.inj (r.struct_eq.symm.trans hP.struct_hash)
  rw [hstruct] at hcurry'
  -- the inner puzzle is the layer with the state
  obtain ⟨-, harguments⟩ := HashOracle.curryTreeHash_inj hH hcurry hcurry'
  simp only [List.cons.injEq, Clvm.atom.injEq, and_true, true_and] at harguments
  obtain rfl := harguments
  obtain rfl := hP.innerPuzzle_eq hH hinner hb
  obtain ⟨solution, hmain⟩ := hP.actionLayer r.inner_eq
  obtain ⟨calls, steps, ephemeral, inner', hcalls, -, -, hrun, hinner', hout⟩ :=
    exists_calls hH hP.layer hmain
  have hpayless : ∀ c ∈ (steps.map Step.conditions).reverse.flatten, c.Payless := by
    intro c hc
    obtain ⟨step, hstep, hmem⟩ := (@mem_actionConditions _ ⟨s, state, calls, state, steps⟩ c).1 hc
    exact R.payless (runActions_mem hrun step hstep) c hmem
  have hread : conditionsOf r.innerOut
      = .createCoin (.atom inner') (.atom [1]) [P.layer.constants.hint] ::
        (steps.map Step.conditions).reverse.flatten := by
    rw [hout, conditionsOf_ofList, List.filterMap_cons, ofClvm?_recreation, ← conditionsOf_ofList]
    exact congrArg _ (conditionsOf_encode _)
  have hodd : oddAmount (.atom [1]) = true := by decide
  have hmelt : Clvm.atom [1] ≠ meltAmount := by decide
  have hmem : .createCoin (.atom inner') (.atom [1]) [P.layer.constants.hint]
      ∈ conditionsOf r.innerOut := by
    rw [hread]
    exact List.mem_cons_self
  obtain ⟨ph, hph⟩ := r.wraps _ _ _ hmem hodd hmelt
  -- the coins of the actions have no amount, and the layer passes them on
  have hmorph : ((steps.map Step.conditions).reverse.flatten).filterMap
      (P.topLayer.morph M.hash r.structHash) = (steps.map Step.conditions).reverse.flatten := by
    refine (List.filterMap_congr fun c hc => ?_).trans (List.filterMap_some ..)
    exact SingletonTopLayer.morph_of_not_odd (createsOdd_of_payless (hpayless c hc))
  have hone : (conditionsOf r.innerOut).filter createsOdd
      = [.createCoin (.atom inner') (.atom [1]) [P.layer.constants.hint]] := by
    have hcreates : createsOdd (.createCoin (.atom inner') (.atom [1])
        [P.layer.constants.hint]) = true := hodd
    have hnone : ((steps.map Step.conditions).reverse.flatten).filter createsOdd = [] := by
      refine List.filter_eq_nil_iff.2 fun c hc => ?_
      rw [createsOdd_of_payless (hpayless c hc)]
      exact Bool.false_ne_true
    rw [hread, List.filter_cons_of_pos hcreates, hnone]
  obtain ⟨hamount, hparent⟩ := r.asserted hconditions hasserts
  obtain ⟨next, honly, hnext⟩ :=
    r.only hs hconditions hbears P.launcher hone hmelt hph
  rw [hstruct] at hph
  have hnonempty : assertThat (!calls.isEmpty) = some () :=
    assertThat_eq_some.2 (by simpa using hcalls)
  refine ⟨calls, steps, ⟨⟨inner, hinner, hcurry⟩,
    bind_intro hnonempty (bind_intro hrun rfl), rfl, inner', ph, hinner', hph, ?_⟩,
    next, ⟨inner', hinner', ?_⟩, honly⟩
  · show s.conditions = _
    rw [hconditions, r.conditions_eq, hread, hamount, hparent, List.filterMap_cons, hmorph,
      SingletonTopLayer.morph, if_pos hodd, if_neg hmelt, hstruct, hph]
    rfl
  · rw [hnext]
    exact hph

/-! ## A spend of a slot -/

/-- **A slot is spent if a coin of the singleton created it**, and one sends it nil. -/
theorem slot_spend (hH : M.hash.CollisionFree) (hP : P.Lawful M R kinds program tree)
    {s : Spend} (hs : s.Readable M) {height timestamp : ℕ}
    (hasserts : ∀ c ∈ s.conditions, s.Asserts height timestamp c)
    (hslot : IsSlot M.hash kinds s.coin.puzzleHash) :
    (∃ parent, ChildOf M.hash s.coin parent ∧ P.Owned M.hash parent.puzzleHash) ∧
      ∃ sender, P.Owned M.hash sender ∧
        s.conditions = [.assertMyParentId (.atom s.coin.parentCoinInfo),
          .receiveMessage puzzlePuzzle .nil [.atom sender]] := by
  obtain ⟨kind, hkind, valueHash, hph⟩ := hslot
  obtain ⟨v, hv, hcurry⟩ := HashOracle.getSlotPuzzleHash_eq_some.1 hph
  obtain ⟨nonce, hnonce, hslotMain⟩ := hP.slots kind hkind
  obtain ⟨first, _, modHash, hreveal, hmod, hfirst, harguments⟩ :=
    HashOracle.exists_curry_of_treeHash hH hs.reveal hcurry
  rw [← Clvm.atom.inj hmod] at hfirst
  obtain rfl := HashOracle.treeHash_inj hH hfirst hnonce
  cases harguments with
  | cons hvalue hnil =>
    obtain ⟨_, hsame, hvalue⟩ := hvalue
    rw [← Clvm.atom.inj hsame] at hvalue
    cases hnil
    obtain rfl := HashOracle.eq_atom_of_treeHash hH hvalue hv
    obtain ⟨out, hout, hconditions⟩ := hs.runs
    rw [hreveal] at hout
    obtain ⟨cs, hcs, rfl⟩ := Option.map_eq_some_iff.1 (hslotMain hout)
    rw [conditionsOf_encode] at hconditions
    match hsolution : s.spend.solution, hcs with
    | .pair (.pair parentInfo (.pair innerPuzzleHash amount)) spender, hcs =>
        obtain ⟨parent, hparent, h1⟩ := bind_elim hcs
        obtain ⟨parentId, hparentId, h2⟩ := bind_elim h1
        obtain ⟨sender, hsender, h3⟩ := bind_elim h2
        obtain rfl := Option.some.inj h3
        have hassert : s.Asserts height timestamp (.assertMyParentId (.atom parentId)) := by
          refine hasserts _ ?_
          rw [hconditions]
          exact List.mem_cons_self
        obtain rfl := Clvm.atom.inj hassert
        obtain ⟨coin, hcoin, -, hpuzzleHash⟩ := exists_coin_of_coinid hparentId
        rw [Clvm.atom.inj hpuzzleHash] at hparent
        exact ⟨⟨coin, hcoin, P.structHash, _, hP.struct_hash, hparent⟩, sender,
          ⟨P.structHash, _, hP.struct_hash, hsender⟩, hconditions⟩

end

end SlotMachine.Onchain
