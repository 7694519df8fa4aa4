import SlotMachine.Puzzles.CatMaker
import SlotMachine.Puzzles.Slot

/-!
# XCHandles: data

The constants the actions are curried with, the state of the registry, the
values of its two kinds of slots, and the solutions of the actions
(`xchandles.rue`, `common_types.rue`, and the parameters of each `main`).

A solution is a tree of which an action reads some parts and copies others.
Each solution type has a field for every part that the action reads on its own;
whatever it only copies or hashes stays one value.  `ofClvm?` takes a tree
apart, which fails exactly where the action would run into an atom.
-/

namespace SlotMachine.Xchandles

/-- The constants the actions of a registry are curried with. -/
structure Constants where
  singletonModHash : Bytes
  singletonLauncherPuzzleHash : Bytes
  precommit1stCurryHash : Bytes
  handleSlot1stCurryHash : Bytes
  updateSlot1stCurryHash : Bytes
  offerModHash : Bytes
  payoutPuzzleHash : Bytes
  relativeBlockHeight : ℤ
  otherSingletonStructHash : Bytes

/-! ## The state -/

/-- `XchandlesState`. -/
structure XchandlesState where
  catMakerPuzzleHash : Clvm
  pricingPuzzleHash : Clvm
  expiredHandlePricingPuzzleHash : Clvm

/-- `XchandlesStateTruth`: what an action is given before its solution. -/
structure XchandlesStateTruth where
  ephemeralState : Clvm
  state : XchandlesState

def XchandlesState.toClvm (s : XchandlesState) : Clvm :=
  .pair s.catMakerPuzzleHash (.pair s.pricingPuzzleHash s.expiredHandlePricingPuzzleHash)

def XchandlesStateTruth.toClvm (t : XchandlesStateTruth) : Clvm :=
  .pair t.ephemeralState t.state.toClvm

def XchandlesStateTruth.ofClvm? : Clvm → Option XchandlesStateTruth
  | .pair e (.pair c (.pair p x)) => some ⟨e, ⟨c, p, x⟩⟩
  | _ => none

theorem XchandlesStateTruth.ofClvm?_eq_some {v : Clvm} {t : XchandlesStateTruth} :
    ofClvm? v = some t ↔ v = t.toClvm := by
  constructor
  · intro h
    unfold ofClvm? at h
    split at h
    · cases h; rfl
    · cases h
  · rintro rfl; rfl

theorem XchandlesStateTruth.toClvm_injective : Function.Injective toClvm := fun _ _ h =>
  Option.some.inj ((ofClvm?_eq_some.2 rfl).symm.trans (ofClvm?_eq_some.2 h))

/-! ## Slot values -/

/-- `XchandlesHandleSlotValue`, from its parts.  The neighbours and the data are
pairs of two hashes each, where an action looks inside. -/
def handleSlotValue (counter handleHash neighbors expiration data : Clvm) : Clvm :=
  .pair counter (.pair (.pair handleHash neighbors) (.pair expiration data))

/-- `XchandlesHandleSlotValue` around a part `b` that is copied as it is. -/
def handleSlotWith (counter handleHash neighbors b : Clvm) : Clvm :=
  .pair counter (.pair (.pair handleHash neighbors) b)

/-- `XchandlesUpdateSlotValue`. -/
def updateSlotValue (initiatorCoinId minExecutionHeight handleHash newData : Clvm) : Clvm :=
  .pair (.pair initiatorCoinId minExecutionHeight) (.pair handleHash newData)

/-- `PrecommitValue`: what a precommit coin commits to. -/
structure PrecommitValue where
  catMakerHash : Clvm
  catMakerSolution : Clvm
  pricingHash : Clvm
  pricingSolution : Clvm
  handle : Clvm
  secret : Clvm
  data : Clvm
  deriving DecidableEq

def PrecommitValue.toClvm (v : PrecommitValue) : Clvm :=
  .pair (.pair (.pair v.catMakerHash v.catMakerSolution)
      (.pair v.pricingHash v.pricingSolution))
    (.pair (.pair v.handle v.secret) v.data)

theorem PrecommitValue.toClvm_injective : Function.Injective PrecommitValue.toClvm := by
  intro v w h
  cases v
  cases w
  simp only [PrecommitValue.toClvm, Clvm.pair.injEq] at h
  obtain ⟨⟨⟨rfl, rfl⟩, rfl, rfl⟩, ⟨rfl, rfl⟩, rfl⟩ := h
  rfl

/-! ## Parts of solutions -/

/-- `HandlePricingSolution`. -/
structure HandlePricingSolution where
  buyTime : Clvm
  currentExpiration : Clvm
  handle : Clvm
  rest : Clvm

def HandlePricingSolution.toClvm (s : HandlePricingSolution) : Clvm :=
  .pair s.buyTime (.pair s.currentExpiration (.pair s.handle s.rest))

theorem HandlePricingSolution.toClvm_injective :
    Function.Injective HandlePricingSolution.toClvm := by
  intro v w h
  cases v
  cases w
  simp only [HandlePricingSolution.toClvm, Clvm.pair.injEq] at h
  obtain ⟨rfl, rfl, rfl, rfl⟩ := h
  rfl

/-- `HandlePricing`. -/
structure HandlePricing where
  puzzle : Clvm
  solution : HandlePricingSolution

/-- `HandlePricingOutput`. -/
structure HandlePricingOutput where
  totalPrice : Clvm
  registeredTime : Clvm

/-- `HandleSlotData`. -/
structure HandleSlotData where
  ownerLauncherId : Clvm
  resolvedLauncherId : Clvm

def HandleSlotData.toClvm (d : HandleSlotData) : Clvm :=
  .pair d.ownerLauncherId d.resolvedLauncherId

/-- `OtherPrecommitData`. -/
structure OtherPrecommitData where
  newRest : HandleSlotData
  refundPuzzleHashHash : Clvm
  secret : Clvm

/-- `RegisterThisSlotInfo`: the part of a neighbour's slot that the other
arguments do not determine.  `this_expiration` and `this_data` go from one slot
value to the other together, as the tree `thisB` that holds both. -/
structure RegisterThisSlotInfo where
  thisCounter : Clvm
  thisThisValue : Clvm
  thisB : Clvm

/-- `CompactCoinProof`. -/
structure CompactCoinProof where
  parentInfo : Clvm
  innerPuzzleHash : Clvm
  amount : Clvm

/-! ## Running programs of a solution -/

/-- `puzzle(...solution)` of a pricing puzzle, whose result has to be a pair. -/
def runPricing (M : Machine) (puzzle solution : Clvm) : Option HandlePricingOutput := do
  let out ← M.eval puzzle solution
  let (price, time) ← out.uncons
  return ⟨price, time⟩

theorem runPricing_eq_some {M : Machine} {p s : Clvm} {out : HandlePricingOutput} :
    runPricing M p s = some out ↔ M.eval p s = some (.pair out.totalPrice out.registeredTime) := by
  simp only [runPricing, Option.bind_eq_bind, Option.bind_eq_some_iff, Option.pure_def,
    Option.some.injEq]
  constructor
  · rintro ⟨v, hv, ⟨price, time⟩, hu, rfl⟩
    rw [hv, Clvm.uncons_eq_some.1 hu]
  · intro h
    exact ⟨_, h, (out.totalPrice, out.registeredTime), rfl, rfl⟩

/-- `(q . (PRICE . TIME))` as a pricing puzzle. -/
theorem runPricing_quoted (H : HashOracle) (other : Bytes → List Clvm → Option Clvm) (fuel : ℕ)
    (price time s : Clvm) :
    runPricing (.clvm H other (fuel + 1)) (.quoted (.pair price time)) s = some ⟨price, time⟩ :=
  runPricing_eq_some.2 (Clvm.run_quote H other fuel (.pair price time) s)

/-! ## Slots and owners -/

section Coins

variable (H : HashOracle) (K : Constants)

/-- Spend the handle slot of a value. -/
def spendHandle (value : Clvm) : Option Condition := H.spendSlotOf K.handleSlot1stCurryHash value

/-- Create the handle slot of a value. -/
def createHandle (value : Clvm) : Option Condition := H.createSlotOf K.handleSlot1stCurryHash value

/-- `singleton_puzzle_hash`, with the constants of the registry. -/
def singletonPuzzleHash (launcherId innerPuzzleHash : Clvm) : Option Bytes :=
  H.singletonPuzzleHash K.singletonModHash K.singletonLauncherPuzzleHash launcherId innerPuzzleHash

/-- The condition that spends a slot, by its puzzle hash. -/
def spendCoin (ph : Bytes) : Condition := .sendMessage puzzlePuzzle .nil [.atom ph]

/-- The condition that creates a handle slot, by its puzzle hash. -/
def createHandleCoin (ph : Bytes) : Condition :=
  .createCoin (.atom ph) .nil [.atom K.handleSlot1stCurryHash]

variable {H K}

theorem spendHandle_eq_some {value : Clvm} {c : Condition} :
    spendHandle H K value = some c ↔
      ∃ ph, H.slotCoin K.handleSlot1stCurryHash value = some ph ∧ c = spendCoin ph :=
  HashOracle.spendSlotOf_eq_some

theorem createHandle_eq_some {value : Clvm} {c : Condition} :
    createHandle H K value = some c ↔
      ∃ ph, H.slotCoin K.handleSlot1stCurryHash value = some ph ∧ c = createHandleCoin K ph :=
  HashOracle.createSlotOf_eq_some

end Coins

/-! ## Precommit coins -/

section Precommit

variable (H : HashOracle) (K : Constants)

/-- The puzzle hash of the precommit puzzle with its value curried in. -/
def precommitInnerPuzzleHash (refundPuzzleHashHash : Clvm) (value : PrecommitValue) :
    Option Bytes := do
  let v ← H.treeHash value.toClvm
  let vh ← H.treeHashAtom (.atom v)
  H.curryTreeHash (.atom K.precommit1stCurryHash) [refundPuzzleHashHash, .atom vh]

variable {H K}

theorem precommitInnerPuzzleHash_eq_some {r : Clvm} {value : PrecommitValue} {d : Bytes} :
    precommitInnerPuzzleHash H K r value = some d ↔
      ∃ v vh, H.treeHash value.toClvm = some v ∧ H.treeHashAtom (.atom v) = some vh ∧
        H.curryTreeHash (.atom K.precommit1stCurryHash) [r, .atom vh] = some d := by
  simp only [precommitInnerPuzzleHash, Option.bind_eq_bind, Option.bind_eq_some_iff]
  constructor
  · rintro ⟨v, h1, vh, h2, h3⟩; exact ⟨v, vh, h1, h2, h3⟩
  · rintro ⟨v, vh, h1, h2, h3⟩; exact ⟨v, h1, vh, h2, h3⟩

/-- **The inner puzzle hash of a precommit coin determines all it commits to.** -/
theorem precommitInnerPuzzleHash_inj (hH : H.CollisionFree) {r r' : Clvm}
    {value value' : PrecommitValue} {d : Bytes}
    (h : precommitInnerPuzzleHash H K r value = some d)
    (h' : precommitInnerPuzzleHash H K r' value' = some d) : r = r' ∧ value = value' := by
  obtain ⟨v, vh, h1, h2, h3⟩ := precommitInnerPuzzleHash_eq_some.1 h
  obtain ⟨v', vh', h1', h2', h3'⟩ := precommitInnerPuzzleHash_eq_some.1 h'
  obtain ⟨-, hps⟩ := HashOracle.curryTreeHash_inj hH h3 h3'
  obtain ⟨hr, hrest⟩ := List.cons.inj hps
  cases (List.cons.inj hrest).1
  cases HashOracle.treeHashAtom_inj hH h2 h2'
  exact ⟨hr, PrecommitValue.toClvm_injective (HashOracle.treeHash_inj hH h1 h1')⟩

theorem precommitInnerPuzzleHash_total (hH : H.Total) (r : Bytes)
    (value : PrecommitValue) : ∃ d, precommitInnerPuzzleHash H K (.atom r) value = some d := by
  obtain ⟨v, h1⟩ := hH.treeHash value.toClvm
  obtain ⟨vh, h2⟩ := hH.treeHashAtom v
  obtain ⟨d, h3⟩ := hH.curryTreeHash K.precommit1stCurryHash [r, vh]
  exact ⟨d, precommitInnerPuzzleHash_eq_some.2 ⟨v, vh, h1, h2, h3⟩⟩

theorem precommitInnerPuzzleHash_mono {H' : HashOracle} (h : H ≤ H') {r : Clvm}
    {value : PrecommitValue} {d : Bytes} (hd : precommitInnerPuzzleHash H K r value = some d) :
    precommitInnerPuzzleHash H' K r value = some d := by
  obtain ⟨v, vh, h1, h2, h3⟩ := precommitInnerPuzzleHash_eq_some.1 hd
  exact precommitInnerPuzzleHash_eq_some.2 ⟨v, vh, HashOracle.treeHash_mono h h1,
    HashOracle.treeHashAtom_mono h h2, HashOracle.curryTreeHash_mono h h3⟩

/-- What is hashed for the inner puzzle of a precommit coin. -/
def precommitSkeletons (K : Constants) (refundPuzzleHashHash : Bytes) (value : PrecommitValue) :
    List Skeleton :=
  let v := (Skeleton.ofClvm value.toClvm).hash
  [.ofClvm value.toClvm, .atom v,
    .curry K.precommit1stCurryHash [refundPuzzleHashHash, (Skeleton.atom v).hash]]

/-- The inner puzzle hash of a precommit coin, by SHA-256. -/
def precommitInnerHash (K : Constants) (refundPuzzleHashHash : Bytes) (value : PrecommitValue) :
    Bytes :=
  (Skeleton.curry K.precommit1stCurryHash [refundPuzzleHashHash,
    (Skeleton.atom (Skeleton.ofClvm value.toClvm).hash).hash]).hash

theorem precommitInnerPuzzleHash_ofSkeletons {ts : List Skeleton} {r : Bytes}
    {value : PrecommitValue} (h : precommitSkeletons K r value ⊆ ts) :
    precommitInnerPuzzleHash (.ofSkeletons ts) K (.atom r) value
      = some (precommitInnerHash K r value) := by
  have hcurry : Skeleton.curry K.precommit1stCurryHash
      [r, (Skeleton.atom (Skeleton.ofClvm value.toClvm).hash).hash] ∈ ts :=
    h (by simp [precommitSkeletons])
  exact precommitInnerPuzzleHash_eq_some.2
    ⟨_, _, HashOracle.treeHash_ofSkeletons (h (by simp [precommitSkeletons])),
      HashOracle.treeHashAtom_ofSkeletons (h (by simp [precommitSkeletons])),
      HashOracle.curryTreeHash_ofSkeletons hcurry⟩

end Precommit

end SlotMachine.Xchandles
