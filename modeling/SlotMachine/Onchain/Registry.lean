import SlotMachine.Onchain.Commitments
import SlotMachine.Onchain.Handles
import SlotMachine.Onchain.Schedule

/-!
# Registries on the chain

What the registries are on a chain of blocks: any blocks that full nodes accept, with any
other spends in them.  A registry is put on the chain by its programs; what these are known
to do is taken from their sources, and the chain does the rest.

* `Example` — XCHandles with its state scheduler and a precommit coin on a ledger, and a
  block that announces the first handle slot, refunds the coin and replaces the state.
* `chain_refines_registry` — **every chain is a history of the registry**.
* `chain_handles_doublyLinked` — **the unspent handle slots of a chain are one sorted list**.
* `chain_handle_change` — **the data of a handle changes with the consent of its owner**, or
  after it had expired.
* `schedule_followed` — **the price schedule is followed**.
* `precommits_redeemed`, `openings_honored` — **precommit coins are spent by the actions that
  open them**, in time and as their buyers were promised.
-/

namespace SlotMachine.Onchain

open Lineage Consensus Settlement

/-! ## An example -/

namespace Example

open Clvm
open Xchandles.Example (bytes32 lowSlot highSlot)

/-- The first state: the hashes of a CAT maker and of two pricing puzzles. -/
def state : Clvm := .pair (.atom (bytes32 40)) (.pair (.atom (bytes32 41)) (.atom (bytes32 42)))

/-! ### The programs -/

def topLayer : SingletonTopLayer := ⟨.atom [201], treeHash256 (.atom [201]), bytes32 2⟩

def actionLayer : Clvm := .atom [202]

def finalizerMod : Clvm := .atom [203]

def slot : Clvm := .atom [204]

def stateScheduler : Clvm := .atom [205]

def cat : CatLayer := ⟨.atom [207], treeHash256 (.atom [207])⟩

def precommitMod : Clvm := .atom [208]

def program : Xchandles.Action → Clvm
  | .register => .ofList [.atom [101]]
  | .expire => .ofList [.atom [102]]
  | .extend => .ofList [.atom [103]]
  | .oracle => .ofList [.atom [104]]
  | .initiateUpdate => .ofList [.atom [105]]
  | .executeUpdate => .ofList [.atom [106]]
  | .refund => .ofList [.atom [107]]
  | .delegatedState => .ofList [.atom [108]]

def actionOf : Clvm → Option Xchandles.Action
  | .pair (.atom [101]) (.atom []) => some .register
  | .pair (.atom [102]) (.atom []) => some .expire
  | .pair (.atom [103]) (.atom []) => some .extend
  | .pair (.atom [104]) (.atom []) => some .oracle
  | .pair (.atom [105]) (.atom []) => some .initiateUpdate
  | .pair (.atom [106]) (.atom []) => some .executeUpdate
  | .pair (.atom [107]) (.atom []) => some .refund
  | .pair (.atom [108]) (.atom []) => some .delegatedState
  | _ => none

/-- The program that follows the message of the first generation. -/
def generationProgram : Clvm := .ofList [.atom [109]]

/-! ### The coins -/

def launcher : Coin := ⟨bytes32 30, topLayer.launcherPuzzleHash, 1⟩

def launcherMessage : Bytes := bytes32 30 ++ topLayer.launcherPuzzleHash ++ [1]

def launcherId : Bytes := Sha256.hash launcherMessage

def structHash : Bytes := treeHash256 (topLayer.struct launcherId)

def schedulerLauncher : Coin := ⟨bytes32 31, topLayer.launcherPuzzleHash, 1⟩

def schedulerLauncherMessage : Bytes := bytes32 31 ++ topLayer.launcherPuzzleHash ++ [1]

def schedulerLauncherId : Bytes := Sha256.hash schedulerLauncherMessage

def schedulerStructHash : Bytes := treeHash256 (topLayer.struct schedulerLauncherId)

def slotFirst (nonce : Clvm) : Clvm :=
  curry slot [.pair (.atom topLayer.modHash) (.atom structHash), nonce]

def precommitFirst : Clvm :=
  curry precommitMod [.atom topLayer.modHash, .atom structHash, .ofInt 32, .atom (bytes32 7)]

def constants : Xchandles.Constants where
  singletonModHash := topLayer.modHash
  singletonLauncherPuzzleHash := topLayer.launcherPuzzleHash
  precommit1stCurryHash := treeHash256 precommitFirst
  handleSlot1stCurryHash := treeHash256 (slotFirst .nil)
  updateSlot1stCurryHash := treeHash256 (slotFirst (.atom [1]))
  offerModHash := bytes32 6
  payoutPuzzleHash := bytes32 7
  relativeBlockHeight := 32
  otherSingletonStructHash := schedulerStructHash

def selfHash : Bytes := treeHash256 finalizerMod

def finalizer : Clvm := curry finalizerMod [.atom selfHash]

def finalizerConstants : Finalizer.Curried :=
  ⟨treeHash256 actionLayer, .atom (bytes32 32), selfHash⟩

def oracleHash : Bytes := treeHash256 (program .oracle)

def delegatedHash : Bytes := treeHash256 (program .delegatedState)

def refundActionHash : Bytes := treeHash256 (program .refund)

def tree : Merkle.Tree Bytes :=
  .node (.leaf oracleHash) (.node (.leaf refundActionHash) (.leaf delegatedHash))

/-- The actions but the first one. -/
def restSkeleton : Skeleton :=
  .pair (.digest (treeHash256 (.atom refundActionHash)))
    (.digest (treeHash256 (.atom delegatedHash)))

def rootSkeleton : Skeleton :=
  .pair (.digest (treeHash256 (.atom oracleHash))) (.digest restSkeleton.hash)

def root : Bytes := rootSkeleton.hash

def layer : Layer := ⟨finalizerConstants, finalizer, root⟩

/-- The state after the block. -/
def later : Clvm := .atom [9]

def innerSkeleton (state : Clvm) : Skeleton :=
  .curry (treeHash256 actionLayer)
    [treeHash256 finalizer, treeHash256 (.atom root), treeHash256 state]

def innerHash (state : Clvm) : Bytes := (innerSkeleton state).hash

/-- The puzzle hash of the registry with a state. -/
def puzzleHash (state : Clvm) : Bytes :=
  (Skeleton.curry topLayer.modHash [structHash, innerHash state]).hash

def eve : Coin := ⟨launcherId, puzzleHash state, 1⟩

def eveMessage : Bytes := launcherId ++ puzzleHash state ++ [1]

def eveId : Bytes := Sha256.hash eveMessage

def tip : Coin := ⟨eveId, puzzleHash state, 1⟩

def tipMessage : Bytes := eveId ++ puzzleHash state ++ [1]

def tipId : Bytes := Sha256.hash tipMessage

/-- The puzzle hash of a slot. -/
def slotHash (value : Clvm) : Bytes :=
  HashOracle.slotHash constants.handleSlot1stCurryHash value

def low : Coin := ⟨eveId, slotHash (lowSlot .nil), 0⟩

def lowMessage : Bytes := eveId ++ slotHash (lowSlot .nil) ++ []

def lowId : Bytes := Sha256.hash lowMessage

def high : Coin := ⟨eveId, slotHash highSlot, 0⟩

/-- The first slot after the block. -/
def next : Clvm := lowSlot (.ofInt (intFromBytes [] + 1))

/-! ### The scheduler -/

def message : Clvm := .tagged 's' (treeHash256 later)

def generation : Clvm :=
  curry stateScheduler [.atom topLayer.modHash, .atom structHash, message, generationProgram]

/-- The program that takes over. -/
def finalProgram : Clvm := .atom [206]

def finalPuzzleHash : Bytes := treeHash256 finalProgram

def schedulerPuzzleHash (inner : Bytes) : Bytes :=
  (Skeleton.curry topLayer.modHash [schedulerStructHash, inner]).hash

def sender : Coin := ⟨schedulerLauncherId, schedulerPuzzleHash (treeHash256 generation), 1⟩

def senderMessage : Bytes :=
  schedulerLauncherId ++ schedulerPuzzleHash (treeHash256 generation) ++ [1]

def senderId : Bytes := Sha256.hash senderMessage

/-! ### The precommit coin -/

def tailHash : Clvm := .atom (bytes32 43)

def tailHashHash : Bytes := treeHash256 tailHash

def catMakerPuzzle : Clvm := .ofList [.atom [110]]

/-- Every handle costs five, for a thousand seconds. -/
def pricingPuzzle : Clvm := .ofList [.atom [111]]

def refundPuzzleHash : Bytes := bytes32 45

def refundHash : Bytes := treeHash256 (.atom refundPuzzleHash)

/-- The coin is worth eight, which is not the price. -/
def refundSolution : Xchandles.RefundSolution where
  pricing := ⟨.atom (treeHash256 pricingPuzzle), pricingPuzzle,
    ⟨.ofInt 500, .nil, .atom [97], .nil⟩⟩
  catMaker := ⟨.atom (treeHash256 catMakerPuzzle), catMakerPuzzle, .nil⟩
  handle := .atom [97]
  precommitAmount := .ofInt 8
  slotValue := .nil
  newRest := .pair (.atom (bytes32 46)) (.atom (bytes32 47))
  refundPuzzleHashHash := .atom refundHash
  secret := .atom [48]

def valueHash : Bytes := (Skeleton.ofClvm refundSolution.precommitValue.toClvm).hash

def precommitPuzzle : Clvm := curry precommitFirst [.atom refundPuzzleHash, .atom valueHash]

def precommitHash : Bytes :=
  Xchandles.precommitInnerHash constants refundHash refundSolution.precommitValue

def coinPuzzleHash : Bytes := defaultCatHash cat.modHash tailHashHash precommitHash

def precommitCoin : Coin := ⟨bytes32 44, coinPuzzleHash, 8⟩

def precommitMessage : Bytes := bytes32 44 ++ coinPuzzleHash ++ [8]

def precommitId : Bytes := Sha256.hash precommitMessage

/-- The CAT of the refund puzzle. -/
def paidPuzzleHash : Bytes := defaultCatHash cat.modHash tailHashHash refundPuzzleHash

def precommits : Precommits :=
  ⟨cat, tailHashHash, precommitMod, 32, bytes32 7, treeHash256 precommitFirst⟩

/-! ### The table -/

def skeletons : List Skeleton :=
  [.ofClvm topLayer.program, .ofClvm (topLayer.struct launcherId),
    .ofClvm (topLayer.struct schedulerLauncherId), .ofClvm actionLayer, .ofClvm finalizerMod,
    .ofClvm (.atom selfHash), .curry selfHash [treeHash256 (.atom selfHash)],
    .ofClvm (program .oracle), .ofClvm (program .refund), .ofClvm (program .delegatedState),
    .ofClvm (.atom oracleHash), .ofClvm (.atom refundActionHash), .ofClvm (.atom delegatedHash),
    restSkeleton, rootSkeleton, .ofClvm (.atom root), .ofClvm state,
    .ofClvm later, innerSkeleton state, innerSkeleton later,
    .curry topLayer.modHash [structHash, innerHash state],
    .curry topLayer.modHash [structHash, innerHash later],
    .ofClvm (slotFirst .nil), .ofClvm (slotFirst (.atom [1])), .ofClvm generation,
    .ofClvm finalProgram,
    .curry topLayer.modHash [schedulerStructHash, treeHash256 generation],
    .curry topLayer.modHash [schedulerStructHash, finalPuzzleHash],
    .ofClvm cat.program, .ofClvm tailHash, .ofClvm catMakerPuzzle, .ofClvm pricingPuzzle,
    .ofClvm precommitFirst, .ofClvm (.atom refundPuzzleHash)]
    ++ Xchandles.precommitSkeletons constants refundHash refundSolution.precommitValue
    ++ defaultCatMakerSkeletons cat.modHash tailHashHash precommitHash
    ++ defaultCatMakerSkeletons cat.modHash tailHashHash refundPuzzleHash
    ++ HashOracle.slotSkeletons constants.handleSlot1stCurryHash (lowSlot .nil)
    ++ HashOracle.slotSkeletons constants.handleSlot1stCurryHash next
    ++ HashOracle.slotSkeletons constants.handleSlot1stCurryHash highSlot

def messages : List Bytes :=
  [launcherMessage, schedulerLauncherMessage, eveMessage, tipMessage, lowMessage, senderMessage,
    precommitMessage]

def table : HashOracle := .ofTranscript skeletons messages

def entries : List (ℕ × ℕ) := skeletons.flatMap Skeleton.entries ++ HashOracle.entries messages

/-- No two messages collide, and no coin has the id of the parent of a launcher or of the
precommit coin. -/
theorem entries_checked : (HashOracle.noCollisions entries && entries.all fun e =>
    e.1 ≠ HashOracle.number (bytes32 30) ∧ e.1 ≠ HashOracle.number (bytes32 31) ∧
      e.1 ≠ HashOracle.number (bytes32 44)) = true := by
  decide +kernel


theorem table_collisionFree : table.CollisionFree :=
  HashOracle.ofTranscript_collisionFree (Bool.and_eq_true_iff.1 entries_checked).1

theorem le_table : HashOracle.ofSkeletons skeletons ≤ table :=
  HashOracle.ofSkeletons_le_ofTranscript _ _

theorem treeHash_eq {v : Clvm} (h : Skeleton.ofClvm v ∈ skeletons) :
    table.treeHash v = some (treeHash256 v) :=
  HashOracle.treeHash_mono le_table (HashOracle.treeHash_ofSkeletons h)

theorem curryTreeHash_eq {m : Bytes} {ps : List Bytes} (h : Skeleton.curry m ps ∈ skeletons) :
    table.curryTreeHash (.atom m) (ps.map .atom) = some (Skeleton.curry m ps).hash :=
  HashOracle.curryTreeHash_mono le_table (HashOracle.curryTreeHash_ofSkeletons h)

theorem slotCoin_eq {v : Clvm}
    (h : HashOracle.slotSkeletons constants.handleSlot1stCurryHash v ⊆ skeletons) :
    table.slotCoin constants.handleSlot1stCurryHash v = some (slotHash v) :=
  HashOracle.slotCoin_mono le_table (HashOracle.slotCoin_ofSkeletons h)

/-- The id of a coin of amount one. -/
theorem id_eq {parent ph : Bytes} (hparent : parent.length = 32) (hph : ph.length = 32)
    (h : parent ++ ph ++ [1] ∈ messages) :
    Coin.id table ⟨parent, ph, 1⟩ = some (Sha256.hash (parent ++ ph ++ [1])) := by
  have hamount : Clvm.ofInt 1 = .atom [1] := by decide
  exact HashOracle.coinid_eq_some.2
    ⟨parent, ph, [1], rfl, rfl, hamount, hparent, hph, rfl, HashOracle.digest_ofTranscript h⟩

theorem low_id : low.id table = some lowId :=
  HashOracle.coinid_eq_some.2 ⟨eveId, slotHash (lowSlot .nil), [], rfl, rfl, rfl,
    Sha256.length_hash _, Sha256.length_hash _, rfl,
    HashOracle.digest_ofTranscript (by simp [messages, lowMessage])⟩

theorem launcher_id : launcher.id table = some launcherId :=
  id_eq rfl rfl (by simp [messages, launcherMessage])

theorem schedulerLauncher_id : schedulerLauncher.id table = some schedulerLauncherId :=
  id_eq rfl rfl (by simp [messages, schedulerLauncherMessage])

theorem eve_id : eve.id table = some eveId :=
  id_eq (Sha256.length_hash _) (Sha256.length_hash _) (by simp [messages, eveMessage])

theorem tip_id : tip.id table = some tipId :=
  id_eq (Sha256.length_hash _) (Sha256.length_hash _) (by simp [messages, tipMessage])

theorem sender_id : sender.id table = some senderId :=
  id_eq (Sha256.length_hash _) (Sha256.length_hash _) (by simp [messages, senderMessage])

theorem precommit_id : precommitCoin.id table = some precommitId :=
  HashOracle.coinid_eq_some.2 ⟨bytes32 44, coinPuzzleHash, [8], rfl, rfl, by decide, rfl,
    Sha256.length_hash _, rfl,
    HashOracle.digest_ofTranscript (by simp [messages, precommitMessage])⟩

/-- The parents of the launchers and of the precommit coin are no hashes. -/
theorem digest_ne {m d : Bytes} (h : table.digest m = some d) :
    d ≠ bytes32 30 ∧ d ≠ bytes32 31 ∧ d ≠ bytes32 44 := by
  simp only [table, HashOracle.ofTranscript, HashOracle.ofQueries,
    Option.ite_none_right_eq_some, Option.some.injEq] at h
  obtain ⟨hmem, rfl⟩ := h
  have hentry : (HashOracle.number (Sha256.hash m), HashOracle.number m) ∈ entries := by
    rcases List.mem_append.1 hmem with hmem | hmem
    · obtain ⟨t, ht, hq⟩ := List.mem_flatMap.1 hmem
      refine List.mem_append_left _ (List.mem_flatMap.2 ⟨t, ht, ?_⟩)
      rw [← Skeleton.entries_queries]
      exact List.mem_map_of_mem hq
    · exact List.mem_append_right _ (List.mem_map_of_mem hmem)
  have hne := of_decide_eq_true
    (List.all_eq_true.1 (Bool.and_eq_true_iff.1 entries_checked).2 _ hentry)
  exact ⟨fun heq => hne.1 (congrArg HashOracle.number heq),
    fun heq => hne.2.1 (congrArg HashOracle.number heq),
    fun heq => hne.2.2 (congrArg HashOracle.number heq)⟩

/-- … and so no ids. -/
theorem id_ne {coin : Coin} {id : Bytes} (h : coin.id table = some id) :
    id ≠ bytes32 30 ∧ id ≠ bytes32 31 ∧ id ≠ bytes32 44 := by
  obtain ⟨_, _, _, -, -, -, -, -, -, hdigest⟩ := HashOracle.coinid_eq_some.1 h
  exact digest_ne hdigest

/-! ### What runs -/

def programs : Programs :=
  ⟨topLayer, launcher, launcherId, structHash, actionLayer, layer, slot⟩

def scheduler : Scheduler where
  launcher := schedulerLauncher
  launcherId := schedulerLauncherId
  structHash := schedulerStructHash
  stateScheduler := stateScheduler
  stateSchedule := [(500, later)]
  innerPuzzle _ := generationProgram
  finalPuzzleHash := finalPuzzleHash

/-- The announcement of the first slot. -/
def oracleConditions : List Condition :=
  [.sendMessage puzzlePuzzle .nil [.atom (slotHash (lowSlot .nil))],
    .createCoin (.atom (slotHash next)) .nil [.atom constants.handleSlot1stCurryHash],
    .createPuzzleAnnouncement (.tagged 'o' (treeHash256 (lowSlot .nil)))]

/-- The condition of the action that replaces the state. -/
def stateCondition : Condition :=
  .receiveMessage puzzlePuzzle message [.atom (schedulerPuzzleHash (treeHash256 generation))]

/-- The refund of the precommit coin. -/
def coinConditions : List Condition :=
  [.sendMessage puzzlePuzzleAmount .nil [.atom coinPuzzleHash, .ofInt 8],
    .createPuzzleAnnouncement (.tagged '$' coinPuzzleHash)]

/-- The conditions of the block: those of the last action come first. -/
def actionConditions : List Condition := stateCondition :: (coinConditions ++ oracleConditions)

def layerSolution : ActionLayer.Solution where
  puzzles := .pair (program .oracle) (.pair (program .refund) (program .delegatedState))
  selectorsAndProofs := .ofList
    [.pair (.atom [7]) (.pair (.atom [3]) (.ofList [.atom (treeHash256 (.atom refundActionHash)),
        .atom (treeHash256 (.atom oracleHash))])),
      .pair (.atom [5]) (.pair (.atom [2]) (.ofList [.atom (treeHash256 (.atom delegatedHash)),
        .atom (treeHash256 (.atom oracleHash))])),
      .pair (.atom [2]) (.pair .nil (.ofList [.atom restSkeleton.hash]))]
  solutions := .ofList [lowSlot .nil, refundSolution.toClvm,
    .pair later (.atom (treeHash256 generation))]
  finalizerSolution := .nil

def layerArguments : Clvm :=
  .ofList [layerSolution.puzzles, layerSolution.selectorsAndProofs, layerSolution.solutions,
    layerSolution.finalizerSolution]

def layerOut : Clvm :=
  .ofList (Finalizer.recreation finalizerConstants (innerHash later)
    :: actionConditions.map Condition.toClvm)

def tipArguments : Clvm :=
  .ofList [.ofList [.atom launcherId, .atom (innerHash state), .ofInt 1], .ofInt 1, layerArguments]

def tipConditions : List Condition :=
  .assertMyAmount (.ofInt 1) :: .assertMyParentId (.atom eveId) ::
    .createCoin (.atom (puzzleHash later)) (.atom [1]) [finalizerConstants.hint] :: actionConditions

def slotArguments : Clvm :=
  .pair (.pair (.atom launcherId) (.pair (.atom (innerHash state)) (.ofInt 1)))
    (.atom (innerHash state))

def slotConditions : List Condition :=
  [.assertMyParentId (.atom eveId), .receiveMessage puzzlePuzzle .nil [.atom (puzzleHash state)]]

def generationConditions : List Condition :=
  [.createCoin (.atom finalPuzzleHash) (.atom [1]) [], .assertSecondsAbsolute (.ofInt 500)]

def generationOut : Clvm :=
  .pair (Condition.sendMessage puzzlePuzzle message [.atom (puzzleHash state)]).toClvm
    (encode generationConditions)

def generationArguments : Clvm := .pair (.atom (innerHash state)) .nil

def senderArguments : Clvm :=
  .ofList [.ofList [.atom (bytes32 31), .ofInt 1], .ofInt 1, generationArguments]

def senderConditions : List Condition :=
  [.assertMyAmount (.ofInt 1), .assertMyParentId (.atom schedulerLauncherId),
    .sendMessage puzzlePuzzle message [.atom (puzzleHash state)],
    .createCoin (.atom (schedulerPuzzleHash finalPuzzleHash)) (.atom [1]) [],
    .assertSecondsAbsolute (.ofInt 500)]

/-- What the precommit coin is spent with: it is refunded. -/
def precommitArguments : Clvm := .pair .nil (.pair (.ofInt 8) (.atom (innerHash state)))

def precommitOut : List Condition :=
  [.assertHeightRelative (.ofInt 32), .assertMyAmount (.ofInt 8),
    .createCoin (.atom refundPuzzleHash) (.ofInt 8) [.atom refundPuzzleHash],
    .receiveMessage puzzlePuzzleAmount .nil [.atom (puzzleHash state)]]

def catConditions : List Condition :=
  [.assertMyCoinId (.atom precommitId), .assertHeightRelative (.ofInt 32),
    .assertMyAmount (.ofInt 8),
    .createCoin (.atom paidPuzzleHash) (.ofInt 8) [.atom refundPuzzleHash],
    .receiveMessage puzzlePuzzleAmount .nil [.atom (puzzleHash state)]]

/-- What the compiled programs return in the block. -/
def outputs : List (Clvm × Clvm × Clvm) :=
  [(topLayer.puzzle launcherId (programs.innerPuzzle state), tipArguments, encode tipConditions),
    (programs.innerPuzzle state, layerArguments, layerOut),
    (curry (slotFirst .nil) [.atom (treeHash256 (lowSlot .nil))], slotArguments,
      encode slotConditions),
    (topLayer.puzzle schedulerLauncherId generation, senderArguments, encode senderConditions),
    (generation, generationArguments, generationOut),
    (generationProgram, .nil, encode generationConditions),
    (cat.puzzle tailHash precommitPuzzle, .ofList [precommitArguments], encode catConditions),
    (precommitPuzzle, precommitArguments, encode precommitOut)]

/-- Runs the CAT maker and the pricing puzzle. -/
def inner : Machine where
  hash := table
  eval p env :=
    if p = catMakerPuzzle then
      (Rue.defaultCatMaker table (.atom cat.modHash) (.atom tailHashHash) env).map .atom
    else if p = pricingPuzzle then some (.pair (.ofInt 5) (.ofInt 1000))
    else none

/-- Runs the actions and the finalizer as their sources say, and follows paths. -/
def machine : Machine where
  hash := table
  eval p env :=
    if p = finalizer then Finalizer.main table finalizerConstants env
    else match actionOf p, env with
      | some a, .pair truth solution =>
          (Xchandles.Action.run inner constants a truth solution).map
            fun r => .pair r.1 (encode r.2)
      | some _, .atom _ => none
      | none, env =>
          match p with
          | .atom path => Clvm.lookup path env
          | .pair _ _ => (outputs.find? fun r => r.1 = p ∧ r.2.1 = env).map fun r => r.2.2

theorem hash_inner : inner.hash = machine.hash := rfl

theorem eval_catMaker {env : Clvm} : inner.eval catMakerPuzzle env
    = (Rue.defaultCatMaker table (.atom cat.modHash) (.atom tailHashHash) env).map .atom := by
  simp only [inner, if_pos]

theorem eval_pricing {env : Clvm} :
    inner.eval pricingPuzzle env = some (.pair (.ofInt 5) (.ofInt 1000)) := by
  have hne : pricingPuzzle ≠ catMakerPuzzle := by decide
  simp only [inner, if_neg hne, if_pos]

/-- A program that is neither an action nor the finalizer, nor a path. -/
def Compiled (p : Clvm) : Prop := p ≠ finalizer ∧ actionOf p = none ∧ ∃ l r, p = .pair l r

theorem eval_eq {p env : Clvm} (h : Compiled p) : machine.eval p env
    = (outputs.find? fun r => r.1 = p ∧ r.2.1 = env).map fun r => r.2.2 := by
  obtain ⟨hne, hnone, l, r, rfl⟩ := h
  show (if _ then _ else _) = _
  rw [if_neg hne, hnone]

theorem compiled_curry {mod : Clvm} {args : List Clvm} (h : mod ≠ finalizerMod) :
    Compiled (curry mod args) :=
  ⟨fun heq => h (curry_inj.1 heq).1, rfl, _, _, rfl⟩

/-- A program returns what is written down. -/
theorem mem_outputs {p env out : Clvm} (hp : Compiled p) (h : machine.eval p env = some out) :
    (p, env, out) ∈ outputs := by
  rw [eval_eq hp] at h
  obtain ⟨⟨p', env', out'⟩, hfind, rfl⟩ := Option.map_eq_some_iff.1 h
  obtain ⟨rfl, rfl⟩ : p' = p ∧ env' = env := by simpa using List.find?_some hfind
  exact List.mem_of_find?_eq_some hfind

theorem launcherId_ne : launcherId ≠ schedulerLauncherId := by
  intro heq
  have hid := schedulerLauncher_id
  rw [← heq] at hid
  obtain ⟨hparent, -⟩ := Coin.eq_of_id table_collisionFree launcher_id hid
  exact absurd hparent (by decide)

theorem outputs_pairwise : outputs.Pairwise fun r r' => r.1 ≠ r'.1 := by
  have hne := launcherId_ne
  simp [outputs, SingletonTopLayer.puzzle, SingletonTopLayer.struct, Programs.innerPuzzle, programs,
    topLayer, generation, generationProgram, slotFirst, curry, curriedEnvironment, quoted,
    Clvm.ofList, slot, stateScheduler, actionLayer, cat, CatLayer.puzzle, precommitPuzzle,
    precommitFirst, precommitMod, hne]

theorem eval_of_mem {r : Clvm × Clvm × Clvm} (hp : Compiled r.1) (h : r ∈ outputs) :
    machine.eval r.1 r.2.1 = some r.2.2 := by
  rw [eval_eq hp]
  have hfind : outputs.find? (fun r' => decide (r'.1 = r.1 ∧ r'.2.1 = r.2.1)) = some r := by
    have hpairwise := outputs_pairwise
    generalize outputs = rs at h hpairwise
    induction rs with
    | nil => exact absurd h List.not_mem_nil
    | cons r' rs ih =>
        obtain ⟨hhead, htail⟩ := List.pairwise_cons.1 hpairwise
        rcases List.mem_cons.1 h with rfl | h
        · exact List.find?_cons_of_pos (by simp)
        · rw [List.find?_cons_of_neg (by simp [hhead r h])]
          exact ih h htail
  rw [hfind]
  rfl

/-! ### The programs are lawful -/

theorem structHash_eq : table.treeHash (topLayer.struct launcherId) = some structHash :=
  treeHash_eq (by simp [skeletons])

theorem schedulerStructHash_eq :
    table.treeHash (topLayer.struct schedulerLauncherId) = some schedulerStructHash :=
  treeHash_eq (by simp [skeletons])

theorem finalizer_eq : table.treeHash finalizer = some (treeHash256 finalizer) :=
  HashOracle.treeHash_curry (treeHash_eq (by simp [skeletons]))
    (.cons ⟨_, rfl, treeHash_eq (by simp [skeletons])⟩ .nil)
    (@curryTreeHash_eq selfHash [treeHash256 (.atom selfHash)] (by simp [skeletons]))

theorem finalizer_hash :
    table.treeHash finalizer = Finalizer.puzzleHash table finalizerConstants := by
  have hself : table.treeHashAtom (.atom selfHash) = some (treeHash256 (.atom selfHash)) :=
    @treeHash_eq (.atom selfHash) (by simp [skeletons])
  rw [finalizer_eq]
  exact (bind_intro hself (@curryTreeHash_eq selfHash [treeHash256 (.atom selfHash)]
    (by simp [skeletons]))).symm

/-- The two states have layers, and puzzle hashes. -/
theorem layer_eq {v : Clvm} (hv : Skeleton.ofClvm v ∈ skeletons)
    (hskeleton : innerSkeleton v ∈ skeletons) :
    layer.puzzleHash table v = some (innerHash v) := by
  have hroot : table.treeHashAtom (.atom root) = some (treeHash256 (.atom root)) :=
    @treeHash_eq (.atom root) (by simp [skeletons])
  exact bind_intro finalizer_eq (bind_intro hroot (bind_intro (treeHash_eq hv)
    (@curryTreeHash_eq (treeHash256 actionLayer)
      [treeHash256 finalizer, treeHash256 (.atom root), treeHash256 v] hskeleton)))

theorem state_layer : layer.puzzleHash table state = some (innerHash state) :=
  layer_eq (by simp [skeletons]) (by simp [skeletons])

theorem later_layer : layer.puzzleHash table later = some (innerHash later) :=
  layer_eq (by simp [skeletons]) (by simp [skeletons])

theorem state_curry : table.curryTreeHash (.atom topLayer.modHash)
    [.atom structHash, .atom (innerHash state)] = some (puzzleHash state) :=
  @curryTreeHash_eq topLayer.modHash [structHash, innerHash state] (by simp [skeletons])

theorem later_curry : table.curryTreeHash (.atom topLayer.modHash)
    [.atom structHash, .atom (innerHash later)] = some (puzzleHash later) :=
  @curryTreeHash_eq topLayer.modHash [structHash, innerHash later] (by simp [skeletons])

theorem sender_curry : table.curryTreeHash (.atom topLayer.modHash)
    [.atom schedulerStructHash, .atom (treeHash256 generation)]
      = some (schedulerPuzzleHash (treeHash256 generation)) :=
  @curryTreeHash_eq topLayer.modHash [schedulerStructHash, treeHash256 generation]
    (by simp [skeletons])

theorem final_curry : table.curryTreeHash (.atom topLayer.modHash)
    [.atom schedulerStructHash, .atom finalPuzzleHash]
      = some (schedulerPuzzleHash finalPuzzleHash) :=
  @curryTreeHash_eq topLayer.modHash [schedulerStructHash, finalPuzzleHash] (by simp [skeletons])

theorem conditionsOf_layerOut : conditionsOf layerOut
    = .createCoin (.atom (innerHash later)) (.atom [1]) [finalizerConstants.hint]
      :: actionConditions := by
  rw [layerOut, conditionsOf_ofList, List.filterMap_cons_some (ofClvm?_recreation _ _)]
  exact congrArg _ (by simp)


theorem eval_layer : machine.eval (programs.innerPuzzle state) layerArguments = some layerOut :=
  @eval_of_mem (programs.innerPuzzle state, layerArguments, layerOut)
    (compiled_curry (by decide)) (by simp [outputs])

theorem eval_generation : machine.eval generation generationArguments = some generationOut :=
  @eval_of_mem (generation, generationArguments, generationOut)
    (compiled_curry (by decide)) (by simp [outputs])

/-- The run of the top layer of the registry. -/
theorem tip_run : Nonempty (topLayer.TopLayerRun machine launcherId (programs.innerPuzzle state)
    (encode tipConditions)) := ⟨{
    innerSolution := layerArguments
    innerOut := layerOut
    structHash := structHash
    parentId := eveId
    amount := .ofInt 1
    inner_eq := eval_layer
    struct_eq := structHash_eq
    odd := by decide
    parent := Or.inr ⟨launcherId, _, _, [1], Sha256.length_hash _, state_curry,
      HashOracle.digest_ofTranscript (by simp [messages, eveMessage])⟩
    conditions_eq := by
      have hmorph : topLayer.morph machine.hash structHash
          (.createCoin (.atom (innerHash later)) (.atom [1]) [finalizerConstants.hint])
            = some (.createCoin (.atom (puzzleHash later)) (.atom [1])
              [finalizerConstants.hint]) := by
        rw [SingletonTopLayer.morph, if_pos (by decide), if_neg (by decide)]
        exact Option.map_eq_some_iff.2 ⟨_, later_curry, rfl⟩
      rw [conditionsOf_encode, conditionsOf_layerOut, List.filterMap_cons_some hmorph]
      rfl
    one := by
      rw [conditionsOf_layerOut]
      exact ⟨_, rfl⟩
    wraps := by
      intro ph amount memos hmem hodd _
      rw [conditionsOf_layerOut] at hmem
      simp only [actionConditions, stateCondition, coinConditions, oracleConditions,
        List.cons_append, List.nil_append, List.mem_cons, List.not_mem_nil,
        Condition.createCoin.injEq, reduceCtorEq, false_or, or_false] at hmem
      rcases hmem with ⟨rfl, -, -⟩ | ⟨-, rfl, -⟩
      · exact ⟨_, later_curry⟩
      · exact absurd hodd (by decide) }⟩

/-- The run of the top layer of the scheduler. -/
theorem sender_run : Nonempty (topLayer.TopLayerRun machine schedulerLauncherId generation
    (encode senderConditions)) := ⟨{
    innerSolution := generationArguments
    innerOut := generationOut
    structHash := schedulerStructHash
    parentId := schedulerLauncherId
    amount := .ofInt 1
    inner_eq := eval_generation
    struct_eq := schedulerStructHash_eq
    odd := by decide
    parent := Or.inl rfl
    conditions_eq := by
      have hmorph : topLayer.morph machine.hash schedulerStructHash
          (.createCoin (.atom finalPuzzleHash) (.atom [1]) [])
            = some (.createCoin (.atom (schedulerPuzzleHash finalPuzzleHash)) (.atom [1]) []) := by
        rw [SingletonTopLayer.morph, if_pos (by decide), if_neg (by decide)]
        exact Option.map_eq_some_iff.2 ⟨_, final_curry, rfl⟩
      have hsend : topLayer.morph machine.hash schedulerStructHash
          (.sendMessage puzzlePuzzle message [.atom (puzzleHash state)])
            = some (.sendMessage puzzlePuzzle message [.atom (puzzleHash state)]) := rfl
      rw [conditionsOf_encode, generationOut, conditionsOf_pair, conditionsOf_encode,
        List.filterMap_cons_some hsend, generationConditions, List.filterMap_cons_some hmorph]
      rfl
    one := by
      rw [generationOut, conditionsOf_pair, conditionsOf_encode]
      exact ⟨_, rfl⟩
    wraps := by
      intro ph amount memos hmem _ _
      rw [generationOut, conditionsOf_pair, conditionsOf_encode] at hmem
      simp only [generationConditions, List.mem_cons, List.not_mem_nil, Condition.createCoin.injEq,
        reduceCtorEq, false_or, or_false] at hmem
      obtain ⟨rfl, -, -⟩ := hmem
      exact ⟨_, final_curry⟩ }⟩

theorem topLayer_computes : topLayer.Computes machine where
  treeHash_program := @treeHash_eq topLayer.program (by simp [skeletons])
  run := by
    intro id innerPuzzle solution out h
    have hmem := mem_outputs (compiled_curry (by decide)) h
    simp only [outputs, List.mem_cons, List.not_mem_nil, Prod.mk.injEq, or_false] at hmem
    rcases hmem with ⟨hp, rfl, rfl⟩ | ⟨hp, -⟩ | ⟨hp, -⟩ | ⟨hp, rfl, rfl⟩ | ⟨hp, -⟩ | ⟨hp, -⟩ |
      ⟨hp, -⟩ | ⟨hp, -⟩
    · have harguments := (curry_inj.1 hp).2
      simp only [SingletonTopLayer.struct, List.cons.injEq, Clvm.pair.injEq, Clvm.atom.injEq,
        true_and, and_true] at harguments
      obtain ⟨rfl, rfl⟩ := harguments
      exact tip_run
    · cases (curry_inj.1 hp).1
    · cases (curry_inj.1 hp).1
    · have harguments := (curry_inj.1 hp).2
      simp only [SingletonTopLayer.struct, List.cons.injEq, Clvm.pair.injEq, Clvm.atom.injEq,
        true_and, and_true] at harguments
      obtain ⟨rfl, rfl⟩ := harguments
      exact sender_run
    · cases (curry_inj.1 hp).1
    · cases hp
    · cases (curry_inj.1 hp).1
    · cases (curry_inj.1 hp).1

/-- The registry of the example. -/
abbrev kind : RegistryKind := .xchandles constants

theorem oracleLeaf_eq : table.treeHashAtom (.atom oracleHash)
    = some (treeHash256 (.atom oracleHash)) := @treeHash_eq (.atom oracleHash) (by simp [skeletons])

theorem refundLeaf_eq : table.treeHashAtom (.atom refundActionHash)
    = some (treeHash256 (.atom refundActionHash)) :=
  @treeHash_eq (.atom refundActionHash) (by simp [skeletons])

theorem delegatedLeaf_eq : table.treeHashAtom (.atom delegatedHash)
    = some (treeHash256 (.atom delegatedHash)) :=
  @treeHash_eq (.atom delegatedHash) (by simp [skeletons])

theorem rest_eq : table.treeHashPair (.atom (treeHash256 (.atom refundActionHash)))
    (.atom (treeHash256 (.atom delegatedHash))) = some restSkeleton.hash :=
  HashOracle.treeHashPair_mono le_table (@HashOracle.treeHashPair_ofQueries _ (.digest _)
    (.digest _) (@HashOracle.queries_subset skeletons restSkeleton
      (by simp [skeletons])))

theorem root_eq : table.treeHashPair (.atom (treeHash256 (.atom oracleHash)))
    (.atom restSkeleton.hash) = some root :=
  HashOracle.treeHashPair_mono le_table (@HashOracle.treeHashPair_ofQueries _ (.digest _)
    (.digest _) (@HashOracle.queries_subset skeletons rootSkeleton
      (by simp [skeletons])))

theorem oracle_treeHash : table.treeHash (program .oracle) = some oracleHash :=
  treeHash_eq (by simp [skeletons])

theorem refund_treeHash : table.treeHash (program .refund) = some refundActionHash :=
  treeHash_eq (by simp [skeletons])

theorem delegated_treeHash : table.treeHash (program .delegatedState) = some delegatedHash :=
  treeHash_eq (by simp [skeletons])

/-- The machine runs an action as its source says. -/
theorem eval_program (a : Xchandles.Action) (truth solution : Clvm) :
    machine.eval (program a) (.pair truth solution)
      = (Xchandles.Action.run inner constants a truth solution).map
        fun r => .pair r.1 (encode r.2) := by
  cases a <;> rfl

theorem eval_finalizer (solution : Clvm) :
    machine.eval finalizer solution = Finalizer.main table finalizerConstants solution :=
  if_pos rfl

theorem layer_runs : layer.Runs machine (kind.contract inner) program tree where
  root := Merkle.Tree.root_node_eq_some.2 ⟨_, _, oracleLeaf_eq,
    Merkle.Tree.root_node_eq_some.2 ⟨_, _, refundLeaf_eq, delegatedLeaf_eq, rest_eq⟩, root_eq⟩
  leaves := by
    intro ph hph
    simp only [tree, Merkle.Tree.leaves, List.cons_append, List.nil_append, List.mem_cons,
      List.not_mem_nil, or_false] at hph
    rcases hph with rfl | rfl | rfl
    · exact ⟨.oracle, oracle_treeHash⟩
    · exact ⟨.refund, refund_treeHash⟩
    · exact ⟨.delegatedState, delegated_treeHash⟩
  actions := by
    intro a truth solution out h
    exact (eval_program a truth solution).symm.trans h
  finalizes := by
    intro solution out h
    exact (eval_finalizer solution).symm.trans h
  finalizer_hash := finalizer_hash

/-- The announcement of the first slot. -/
theorem oracle_run : Xchandles.Action.run inner constants .oracle (.pair .nil state) (lowSlot .nil)
    = some (.pair .nil state, oracleConditions) := by
  have hspent := @slotCoin_eq (lowSlot .nil) fun _ h => by simp [skeletons, h]
  have hcreated := @slotCoin_eq next fun _ h => by simp [skeletons, h]
  have hhash := @treeHash_eq (lowSlot .nil) (by simp [skeletons, HashOracle.slotSkeletons])
  exact Xchandles.oracle_eq_some.2
    ⟨⟨[], _, rfl, _, hspent, _, hcreated, _, hhash⟩, rfl⟩

theorem precommitInner_eq : Xchandles.precommitInnerPuzzleHash table constants (.atom refundHash)
    refundSolution.precommitValue = some precommitHash :=
  Xchandles.precommitInnerPuzzleHash_mono le_table
    (Xchandles.precommitInnerPuzzleHash_ofSkeletons fun _ h => by simp [skeletons, h])

theorem coin_made : defaultCatMaker table cat.modHash tailHashHash precommitHash
    = some coinPuzzleHash :=
  defaultCatMaker_mono le_table (defaultCatMaker_ofSkeletons fun _ h => by simp [skeletons, h])

theorem paid_made : defaultCatMaker table cat.modHash tailHashHash refundPuzzleHash
    = some paidPuzzleHash :=
  defaultCatMaker_mono le_table (defaultCatMaker_ofSkeletons fun _ h => by simp [skeletons, h])

/-- The refund of the precommit coin. -/
theorem refund_run : Xchandles.Action.run inner constants .refund (.pair .nil state)
    refundSolution.toClvm = some (.pair .nil state, coinConditions) := by
  have hmaker : runCatMaker inner catMakerPuzzle precommitHash .nil = some coinPuzzleHash := by
    rw [runCatMaker_eq_some, eval_catMaker, Rue.defaultCatMaker_atom, coin_made, Option.map_some]
  have hpricing : Xchandles.runPricing inner pricingPuzzle
      refundSolution.pricing.solution.toClvm = some ⟨.ofInt 5, .ofInt 1000⟩ :=
    Xchandles.runPricing_eq_some.2 eval_pricing
  refine Xchandles.refund_eq_some.2 ⟨{
    t := ⟨.nil, ⟨.atom (bytes32 40), .atom (bytes32 41), .atom (bytes32 42)⟩⟩
    s := refundSolution
    truth_eq := rfl
    solution_eq := rfl
    correct := rfl
    catMakerHash := treeHash256 catMakerPuzzle
    catMaker_eq := rfl
    hashes_catMaker := @treeHash_eq catMakerPuzzle (by simp [skeletons])
    pricingHash := treeHash256 pricingPuzzle
    pricing_eq := rfl
    hashes_pricing := @treeHash_eq pricingPuzzle (by simp [skeletons])
    inner := precommitHash
    hashes_inner := precommitInner_eq
    precommitCoin := coinPuzzleHash
    runs_catMaker := hmaker
    priced := ⟨.ofInt 5, .ofInt 1000⟩
    runs_pricing := hpricing
    valid := false
    valid_eq := ?_
    last := []
    last_eq := rfl }, rfl⟩
  -- the amount is not the price
  have hamount : (Clvm.ofInt 8).eq (.ofInt 5) = some false := by decide
  have heq : ∀ x y : Bytes, (Clvm.atom x).eq (.atom y) = some (decide (x = y)) := fun _ _ => rfl
  simp [Xchandles.looksValid, refundSolution, heq, hamount]

/-- The new state. -/
theorem delegated_run : Xchandles.Action.run inner constants .delegatedState (.pair .nil state)
    (.pair later (.atom (treeHash256 generation)))
    = some (.pair .nil later, [stateCondition]) := by
  have hhash := @treeHash_eq later (by simp [skeletons])
  exact delegatedState_eq_some.2 ⟨_, _, _, _, _, _, rfl, rfl, hhash, sender_curry, rfl⟩

theorem eval_oracle : machine.eval (program .oracle) (.pair (.pair .nil state) (lowSlot .nil))
    = some (.pair (.pair .nil state) (encode oracleConditions)) := by
  rw [eval_program]
  exact Option.map_eq_some_iff.2 ⟨_, oracle_run, rfl⟩

theorem eval_refund : machine.eval (program .refund)
    (.pair (.pair .nil state) refundSolution.toClvm)
    = some (.pair (.pair .nil state) (encode coinConditions)) := by
  rw [eval_program]
  exact Option.map_eq_some_iff.2 ⟨_, refund_run, rfl⟩

theorem eval_delegated : machine.eval (program .delegatedState)
    (.pair (.pair .nil state) (.pair later (.atom (treeHash256 generation))))
    = some (.pair (.pair .nil later) (encode [stateCondition])) := by
  rw [eval_program]
  exact Option.map_eq_some_iff.2 ⟨_, delegated_run, rfl⟩

/-- All selectors pick an action of the tree. -/
theorem selectors_eq : ActionLayer.reduceAndVerifyProofs machine (.atom root)
    layerSolution.puzzles [] layerSolution.selectorsAndProofs
      = some [.atom [2], .atom [5], .atom [7]] := by
  have hdelegated : machine.hash.simplifyMerkleProof delegatedHash
      (.pair (.atom [3]) (.ofList [.atom (treeHash256 (.atom refundActionHash)),
        .atom (treeHash256 (.atom oracleHash))])) = some root :=
    bind_intro delegatedLeaf_eq (bind_intro rfl (bind_intro rfl (bind_intro rest_eq
      (bind_intro rfl (bind_intro root_eq rfl)))))
  have hrefund : machine.hash.simplifyMerkleProof refundActionHash
      (.pair (.atom [2]) (.ofList [.atom (treeHash256 (.atom delegatedHash)),
        .atom (treeHash256 (.atom oracleHash))])) = some root :=
    bind_intro refundLeaf_eq (bind_intro rfl (bind_intro rfl (bind_intro rest_eq
      (bind_intro rfl (bind_intro root_eq rfl)))))
  have horacle : machine.hash.simplifyMerkleProof oracleHash
      (.pair .nil (.ofList [.atom restSkeleton.hash])) = some root :=
    bind_intro oracleLeaf_eq (bind_intro rfl (bind_intro rfl (bind_intro root_eq rfl)))
  have hthird : ActionLayer.validSelector machine (.atom root) layerSolution.puzzles (.atom [7])
      (.pair (.atom [3]) (.ofList [.atom (treeHash256 (.atom refundActionHash)),
        .atom (treeHash256 (.atom oracleHash))])) [] = some true :=
    bind_intro rfl (bind_intro delegated_treeHash (bind_intro hdelegated (Clvm.eq_atom root)))
  have hsecond : ActionLayer.validSelector machine (.atom root) layerSolution.puzzles (.atom [5])
      (.pair (.atom [2]) (.ofList [.atom (treeHash256 (.atom delegatedHash)),
        .atom (treeHash256 (.atom oracleHash))])) [.atom [7]] = some true :=
    bind_intro rfl (bind_intro refund_treeHash (bind_intro hrefund (Clvm.eq_atom root)))
  have hfirst : ActionLayer.validSelector machine (.atom root) layerSolution.puzzles (.atom [2])
      (.pair .nil (.ofList [.atom restSkeleton.hash])) [.atom [5], .atom [7]] = some true :=
    bind_intro rfl (bind_intro oracle_treeHash (bind_intro horacle (Clvm.eq_atom root)))
  exact bind_intro rfl (bind_intro hthird (bind_intro rfl (bind_intro rfl (bind_intro hsecond
    (bind_intro rfl (bind_intro rfl (bind_intro hfirst (bind_intro rfl rfl))))))))

theorem layer_main : ActionLayer.main machine (layer.curried state) layerSolution
    = some layerOut := by
  have hself : Finalizer.puzzleHash table finalizerConstants = some (treeHash256 finalizer) :=
    finalizer_hash.symm.trans finalizer_eq
  have hinner : Finalizer.layerPuzzleHash table finalizerConstants.actionLayerModHash
      (treeHash256 finalizer) (.atom root) later = some (innerHash later) := by
    obtain ⟨f, hf, hlayer⟩ := bind_elim later_layer
    obtain rfl := Option.some.inj (finalizer_eq.symm.trans hf)
    exact hlayer
  have hrun : ActionLayer.runActions machine layerSolution.puzzles .nil
      (.pair (.pair .nil state) .nil) [.atom [2], .atom [5], .atom [7]] layerSolution.solutions
      = some (.pair (.pair .nil later) (.ofList
          ([[stateCondition.toClvm], coinConditions.map Condition.toClvm,
            oracleConditions.map Condition.toClvm, []].map Clvm.ofList))) :=
    bind_intro rfl (bind_intro rfl (bind_intro rfl (bind_intro eval_oracle
      (bind_intro rfl (bind_intro rfl (bind_intro rfl (bind_intro eval_refund
        (bind_intro rfl (bind_intro rfl (bind_intro rfl (bind_intro eval_delegated rfl)))))))))))
  refine bind_intro rfl (bind_intro selectors_eq (bind_intro hrun ?_))
  exact (eval_finalizer _).trans
    (Finalizer.main_eq_some.2 ⟨_, _, hself, hinner, rfl⟩)

theorem slotFirst_eq {nonce : Clvm} (h : Skeleton.ofClvm (slotFirst nonce) ∈ skeletons) :
    table.treeHash (slotFirst nonce) = some (treeHash256 (slotFirst nonce)) := treeHash_eq h

theorem slot_main : (table.slotMain topLayer.modHash structHash slotArguments).map encode
    = some (encode slotConditions) := by
  have hmain : table.slotMain topLayer.modHash structHash slotArguments = some slotConditions :=
    bind_intro state_curry (bind_intro eve_id (bind_intro state_curry rfl))
  rw [hmain]
  rfl

theorem lawful : programs.Lawful machine (kind.contract inner) kind.slotKinds program tree where
  topLayer := topLayer_computes
  launcher_id := launcher_id
  struct_hash := structHash_eq
  actionLayer_hash := @treeHash_eq actionLayer (by simp [skeletons])
  actionLayer := by
    intro v solution out h
    have hmem := mem_outputs (compiled_curry (by decide)) h
    simp only [outputs, List.mem_cons, List.not_mem_nil, Prod.mk.injEq, or_false] at hmem
    rcases hmem with ⟨hp, -⟩ | ⟨hp, rfl, rfl⟩ | ⟨hp, -⟩ | ⟨hp, -⟩ | ⟨hp, -⟩ | ⟨hp, -⟩ | ⟨hp, -⟩ |
      ⟨hp, -⟩
    · cases (curry_inj.1 hp).1
    · have harguments := (curry_inj.1 hp).2
      simp only [List.cons.injEq, true_and, and_true] at harguments
      obtain rfl := harguments
      exact ⟨layerSolution, layer_main⟩
    · cases (curry_inj.1 hp).1
    · cases (curry_inj.1 hp).1
    · cases (curry_inj.1 hp).1
    · cases hp
    · cases (curry_inj.1 hp).1
    · cases (curry_inj.1 hp).1
  layer := layer_runs
  slots := by
    have hkinds : kind.slotKinds
        = [treeHash256 (slotFirst .nil), treeHash256 (slotFirst (.atom [1]))] := rfl
    have hruns : ∀ nonce {value : Bytes} {solution out : Clvm},
        machine.eval (curry (slotFirst nonce) [.atom value]) solution = some out →
        (table.slotMain topLayer.modHash structHash solution).map encode = some out := by
      intro nonce value solution out h
      have hmem := mem_outputs (compiled_curry (by rintro ⟨⟩)) h
      simp only [outputs, List.mem_cons, List.not_mem_nil, Prod.mk.injEq, or_false] at hmem
      rcases hmem with ⟨hp, -⟩ | ⟨hp, -⟩ | ⟨-, rfl, rfl⟩ | ⟨hp, -⟩ | ⟨hp, -⟩ | ⟨hp, -⟩ | ⟨hp, -⟩ |
        ⟨hp, -⟩
      · cases (curry_inj.1 hp).1
      · cases (curry_inj.1 hp).1
      · exact slot_main
      · cases (curry_inj.1 hp).1
      · cases (curry_inj.1 hp).1
      · cases hp
      · cases (curry_inj.1 hp).1
      · cases (curry_inj.1 (curry_inj.1 hp).1).1
    rw [hkinds]
    refine List.forall_mem_cons.2 ⟨⟨.nil, ?_, hruns .nil⟩,
      List.forall_mem_singleton.2 ⟨.atom [1], ?_, hruns (.atom [1])⟩⟩
    · exact slotFirst_eq (by simp [skeletons])
    · exact slotFirst_eq (by simp [skeletons])

def tipSpend : Consensus.Spend :=
  ⟨⟨tip, topLayer.puzzle launcherId (programs.innerPuzzle state), tipArguments⟩, tipId,
    tipConditions⟩

def slotSpend : Consensus.Spend :=
  ⟨⟨low, curry (slotFirst .nil) [.atom (treeHash256 (lowSlot .nil))], slotArguments⟩, lowId,
    slotConditions⟩

def senderSpend : Consensus.Spend :=
  ⟨⟨sender, topLayer.puzzle schedulerLauncherId generation, senderArguments⟩, senderId,
    senderConditions⟩

def precommitSpend : Consensus.Spend :=
  ⟨⟨precommitCoin, cat.puzzle tailHash precommitPuzzle, .ofList [precommitArguments]⟩,
    precommitId, catConditions⟩

def block : Consensus.Block :=
  ⟨100, 600, [tipSpend, slotSpend, precommitSpend, senderSpend], []⟩

def ledger : Ledger :=
  ⟨{launcher, eve, schedulerLauncher}, {tip, low, high, precommitCoin, sender}⟩

theorem innerPuzzle_eq : table.treeHash (programs.innerPuzzle state) = some (innerHash state) := by
  obtain ⟨f, hf, h1⟩ := bind_elim state_layer
  obtain ⟨rootHash, hroot, h2⟩ := bind_elim h1
  obtain ⟨stateHash, hstate, hcurry⟩ := bind_elim h2
  exact HashOracle.treeHash_curry lawful.actionLayer_hash
    (.cons ⟨_, rfl, hf⟩ (.cons ⟨_, rfl, hroot⟩ (.cons ⟨_, rfl, hstate⟩ .nil))) hcurry

theorem topProgram_eq : table.treeHash topLayer.program = some topLayer.modHash :=
  topLayer_computes.treeHash_program

theorem tip_readable : tipSpend.Readable machine where
  id_eq := tip_id
  reveal := HashOracle.treeHash_curry topProgram_eq
    (.cons ⟨_, rfl, structHash_eq⟩ (.cons ⟨_, rfl, innerPuzzle_eq⟩ .nil)) state_curry
  runs := ⟨_, @eval_of_mem (topLayer.puzzle launcherId (programs.innerPuzzle state), tipArguments,
    encode tipConditions) (compiled_curry (by decide)) (by simp [outputs]),
    (conditionsOf_encode _).symm⟩
  creates := by
    intro ph amount memos hmem
    simp only [tipSpend, tipConditions, actionConditions, stateCondition, coinConditions,
      oracleConditions, List.cons_append, List.nil_append, List.mem_cons, List.not_mem_nil,
      Condition.createCoin.injEq, reduceCtorEq, false_or, or_false] at hmem
    rcases hmem with ⟨rfl, rfl, -⟩ | ⟨rfl, rfl, -⟩
    · rfl
    · rfl
  nodup := by
    have hcreated : tipSpend.created
        = ([⟨tipId, puzzleHash later, 1⟩, ⟨tipId, slotHash next, 0⟩] : List Coin) := rfl
    rw [hcreated]
    simp

theorem slot_readable : slotSpend.Readable machine where
  id_eq := low_id
  reveal := by
    obtain ⟨d, hd, hslot⟩ := HashOracle.slotCoin_eq_some.1
      (@slotCoin_eq (lowSlot .nil) fun _ h => by simp [skeletons, h])
    obtain ⟨x, hx, hcurry⟩ := HashOracle.getSlotPuzzleHash_eq_some.1 hslot
    have hvalue := @treeHash_eq (lowSlot .nil) (by simp [skeletons, HashOracle.slotSkeletons])
    obtain rfl := Option.some.inj (hvalue.symm.trans hd)
    exact HashOracle.treeHash_curry (slotFirst_eq (by simp [skeletons])) (.cons ⟨_, rfl, hx⟩ .nil)
      hcurry
  runs := ⟨_, @eval_of_mem (curry (slotFirst .nil) [.atom (treeHash256 (lowSlot .nil))],
    slotArguments, encode slotConditions) (compiled_curry (by rintro ⟨⟩)) (by simp [outputs]),
    (conditionsOf_encode _).symm⟩
  creates := by
    intro ph amount memos hmem
    simp [slotSpend, slotConditions] at hmem
  nodup := Multiset.nodup_zero

theorem sender_readable : senderSpend.Readable machine where
  id_eq := sender_id
  reveal := HashOracle.treeHash_curry topProgram_eq
    (.cons ⟨_, rfl, schedulerStructHash_eq⟩
      (.cons ⟨_, rfl, @treeHash_eq generation (by simp [skeletons])⟩ .nil)) sender_curry
  runs := ⟨_, @eval_of_mem (topLayer.puzzle schedulerLauncherId generation, senderArguments,
    encode senderConditions) (compiled_curry (by decide)) (by simp [outputs]),
    (conditionsOf_encode _).symm⟩
  creates := by
    intro ph amount memos hmem
    simp only [senderSpend, senderConditions, List.mem_cons, List.not_mem_nil,
      Condition.createCoin.injEq, reduceCtorEq, false_or, or_false] at hmem
    obtain ⟨rfl, rfl, -⟩ := hmem
    rfl
  nodup := Multiset.nodup_singleton _

theorem precommitFirst_eq : table.treeHash precommitFirst = some (treeHash256 precommitFirst) :=
  treeHash_eq (by simp [skeletons])

theorem cat_eq : table.treeHash cat.program = some cat.modHash :=
  @treeHash_eq cat.program (by simp [skeletons])

theorem tail_eq : table.treeHash tailHash = some tailHashHash :=
  @treeHash_eq tailHash (by simp [skeletons])

theorem refundHash_eq : table.treeHash (.atom refundPuzzleHash) = some refundHash :=
  @treeHash_eq (.atom refundPuzzleHash) (by simp [skeletons])

theorem precommitPuzzle_eq : table.treeHash precommitPuzzle = some precommitHash := by
  obtain ⟨v, vh, hv, hvh, hcurry⟩ :=
    Xchandles.precommitInnerPuzzleHash_eq_some.1 precommitInner_eq
  have hvalue : table.treeHash refundSolution.precommitValue.toClvm = some valueHash :=
    treeHash_eq (by simp [skeletons, Xchandles.precommitSkeletons])
  obtain rfl := Option.some.inj (hvalue.symm.trans hv)
  exact HashOracle.treeHash_curry precommitFirst_eq
    (.cons ⟨_, rfl, refundHash_eq⟩ (.cons ⟨_, rfl, hvh⟩ .nil)) hcurry

theorem precommit_readable : precommitSpend.Readable machine where
  id_eq := precommit_id
  reveal := by
    obtain ⟨mod, hmod, hcurry⟩ := bind_elim coin_made
    exact HashOracle.treeHash_curry cat_eq (.cons ⟨_, rfl, hmod⟩ (.cons ⟨_, rfl, tail_eq⟩
      (.cons ⟨_, rfl, precommitPuzzle_eq⟩ .nil))) hcurry
  runs := ⟨_, @eval_of_mem (cat.puzzle tailHash precommitPuzzle, .ofList [precommitArguments],
    encode catConditions) (compiled_curry (by decide)) (by simp [outputs]),
    (conditionsOf_encode _).symm⟩
  creates := by
    intro ph amount memos hmem
    simp only [precommitSpend, catConditions, List.mem_cons, List.not_mem_nil,
      Condition.createCoin.injEq, reduceCtorEq, false_or, or_false] at hmem
    obtain ⟨rfl, rfl, -⟩ := hmem
    rfl
  nodup := Multiset.nodup_singleton _

/-- The spends of the block, one after another. -/
theorem exists_spends : ∃ l, Baton.Spends Spend.coin Spend.created
    ⟨ledger.spent, ledger.unspent + (block.rewards : Multiset Coin)⟩ block.spends l := by
  have htip : ledger.unspent + (block.rewards : Multiset Coin)
      = tipSpend.coin ::ₘ (low ::ₘ high ::ₘ precommitCoin ::ₘ {sender}) := add_zero _
  have hslot : (low ::ₘ high ::ₘ precommitCoin ::ₘ {sender}) + tipSpend.created
      = slotSpend.coin ::ₘ (high ::ₘ precommitCoin ::ₘ sender ::ₘ tipSpend.created) := by
    simp only [Multiset.cons_add, Multiset.singleton_add]
    rfl
  have hcoin : (high ::ₘ precommitCoin ::ₘ sender ::ₘ tipSpend.created) + slotSpend.created
      = precommitSpend.coin ::ₘ (high ::ₘ sender ::ₘ tipSpend.created + slotSpend.created) := by
    rw [Multiset.cons_swap, Multiset.cons_add]
    rfl
  have hsender : (high ::ₘ sender ::ₘ tipSpend.created + slotSpend.created)
        + precommitSpend.created
      = senderSpend.coin ::ₘ
        (high ::ₘ tipSpend.created + slotSpend.created + precommitSpend.created) := by
    rw [Multiset.cons_swap, Multiset.cons_add, Multiset.cons_add]
    rfl
  exact ⟨_, .cons htip (.cons hslot (.cons hcoin (.cons hsender (.nil _))))⟩

theorem exists_valid : ∃ l, block.Valid machine ledger l := by
  obtain ⟨l, hspends⟩ := exists_spends
  refine ⟨l, ?_, ?_, ?_, List.nodup_nil, fun _ h => absurd h List.not_mem_nil,
    fun _ h => absurd h List.not_mem_nil, hspends⟩
  · simp only [block, List.forall_mem_cons]
    exact ⟨tip_readable, slot_readable, precommit_readable, sender_readable,
      List.forall_mem_nil _⟩
  · have htime : (readUint 8 (.ofInt 500)).Reached 600 := by
      have hread : readUint 8 (.ofInt 500) = .value 500 := readUint_natCast (by decide)
      rw [hread, Reading.Reached]
      omega
    simp only [block, List.forall_mem_cons]
    refine ⟨?_, ?_, ?_, ?_, List.forall_mem_nil _⟩
    · simp [tipSpend, tipConditions, actionConditions, stateCondition, coinConditions,
        oracleConditions, Spend.Asserts, Spend.coin, tip]
    · simp [slotSpend, slotConditions, Spend.Asserts, Spend.coin, low]
    · simp [precommitSpend, catConditions, Spend.Asserts, Spend.coin, precommitCoin]
    · simp only [senderSpend, senderConditions, List.forall_mem_cons]
      exact ⟨rfl, rfl, trivial, trivial, htime, List.forall_mem_nil _⟩
  · exact Multiset.coe_eq_coe.2 (List.reverse_perm (block.spends.flatMap receivedBy))

/-! ### The ledger before the block -/

theorem eveId_ne : eveId ≠ launcherId ∧ eveId ≠ schedulerLauncherId := by
  constructor
  · intro heq
    obtain ⟨hparent, -⟩ := Coin.eq_of_id table_collisionFree launcher_id (heq ▸ eve_id)
    exact (id_ne launcher_id).1 (Clvm.atom.inj hparent)
  · intro heq
    obtain ⟨hparent, -⟩ := Coin.eq_of_id table_collisionFree schedulerLauncher_id (heq ▸ eve_id)
    exact (id_ne launcher_id).2.1 (Clvm.atom.inj hparent)

theorem low_slotCoin : table.slotCoin constants.handleSlot1stCurryHash (lowSlot .nil)
    = some (slotHash (lowSlot .nil)) := slotCoin_eq fun _ h => by simp [skeletons, h]

theorem high_slotCoin : table.slotCoin constants.handleSlot1stCurryHash highSlot
    = some (slotHash highSlot) := slotCoin_eq fun _ h => by simp [skeletons, h]

theorem slotHash_ne : slotHash (lowSlot .nil) ≠ slotHash highSlot := by
  intro heq
  obtain ⟨-, hvalue⟩ :=
    HashOracle.slotCoin_inj table_collisionFree low_slotCoin (heq ▸ high_slotCoin)
  exact absurd hvalue (by decide)

theorem ledger_wellFormed : ledger.WellFormed (ChildOf table) (Orphan table) where
  nodup := by
    have hne := launcherId_ne
    obtain ⟨heve, heve'⟩ := eveId_ne
    obtain ⟨h1, h2, -⟩ := id_ne launcher_id
    obtain ⟨h4, h5, h6⟩ := id_ne schedulerLauncher_id
    obtain ⟨h7, h8, h9⟩ := id_ne eve_id
    have hlaunchers : bytes32 30 ≠ bytes32 31 := by decide
    have hslots := slotHash_ne
    simp [ledger, launcher, eve, schedulerLauncher, tip, low, high, precommitCoin, sender, hne,
      heve, heve', h2, h7, h8, h9, h1.symm, h4.symm, h5.symm, h6.symm, hlaunchers, hslots]
  origin := by
    intro c hc
    have heve : eve ∈ ledger.spent := by simp [ledger]
    simp only [ledger, Multiset.insert_eq_cons, Multiset.cons_add, Multiset.singleton_add,
      Multiset.mem_cons, Multiset.mem_singleton] at hc
    rcases hc with rfl | rfl | rfl | rfl | rfl | rfl | rfl | rfl
    · exact Or.inl fun m h => (digest_ne h).1 rfl
    · exact Or.inr ⟨launcher, by simp [ledger], launcher_id⟩
    · exact Or.inl fun m h => (digest_ne h).2.1 rfl
    · exact Or.inr ⟨eve, heve, eve_id⟩
    · exact Or.inr ⟨eve, heve, eve_id⟩
    · exact Or.inr ⟨eve, heve, eve_id⟩
    · exact Or.inl fun m h => (digest_ne h).2.2 rfl
    · exact Or.inr ⟨schedulerLauncher, by simp [ledger], schedulerLauncher_id⟩

/-- The registry before the block. -/
def registry : Registry := ⟨state, {slotHash (lowSlot .nil), slotHash highSlot}⟩

theorem tip_bears : topLayer.Bears table launcherId tip :=
  ⟨structHash, .atom (innerHash state), structHash_eq, state_curry⟩

theorem eve_bears : topLayer.Bears table launcherId eve :=
  ⟨structHash, .atom (innerHash state), structHash_eq, state_curry⟩

theorem sender_bears : topLayer.Bears table schedulerLauncherId sender :=
  ⟨schedulerStructHash, .atom (treeHash256 generation), schedulerStructHash_eq, sender_curry⟩

theorem tip_carries : programs.Carries table state tip := ⟨_, state_layer, state_curry⟩

theorem sender_carries : scheduler.Carries programs table 0 sender := by
  refine ⟨treeHash256 generation, ?_, sender_curry⟩
  have hlater := @treeHash_eq later (by simp [skeletons])
  have hpuzzle : scheduler.puzzle programs table 0 = some generation := by
    simp only [Scheduler.puzzle, scheduler, List.getElem?_cons_zero, Option.bind_eq_bind,
      Option.bind_some, hlater]
    rfl
  rw [Scheduler.innerPuzzleHash, if_pos (by decide), hpuzzle, Option.bind_some]
  exact @treeHash_eq generation (by simp [skeletons])

/-- The precommit coin is a CAT, and no singleton … -/
theorem precommit_not_bears {id : Bytes} : ¬ topLayer.Bears table id precommitCoin := by
  rintro ⟨struct, inner, -, hcurry⟩
  obtain ⟨mod, -, hcat⟩ := bind_elim coin_made
  obtain ⟨-, harguments⟩ := HashOracle.curryTreeHash_inj table_collisionFree hcurry hcat
  cases harguments

/-- … and no slot. -/
theorem precommit_not_slot : ¬ IsSlot table kind.slotKinds precommitCoin.puzzleHash := by
  rintro ⟨_, -, d, hslot⟩
  obtain ⟨v, -, hcurry⟩ := HashOracle.getSlotPuzzleHash_eq_some.1 hslot
  obtain ⟨mod, -, hcat⟩ := bind_elim coin_made
  obtain ⟨-, harguments⟩ := HashOracle.curryTreeHash_inj table_collisionFree hcurry hcat
  cases harguments

/-- The tip is the only coin of the registry that can be spent. -/
theorem tip_only : Baton.Only (programs.Legit table) tip ledger.unspent := by
  refine ⟨{low, high, precommitCoin, sender}, rfl, ?_, ?_⟩
  · exact ⟨tip_bears, rfl, eve, eve_id, Or.inl eve_bears⟩
  · intro c hc hlegit
    obtain ⟨hbears, hodd, -⟩ := hlegit
    simp only [Multiset.insert_eq_cons, Multiset.mem_cons, Multiset.mem_singleton] at hc
    rcases hc with rfl | rfl | rfl | rfl
    · exact absurd hodd (by decide)
    · exact absurd hodd (by decide)
    · exact precommit_not_bears hbears
    · exact launcherId_ne (hbears.unique table_collisionFree sender_bears)

theorem sender_only : Baton.Only (scheduler.Legit programs table) sender ledger.unspent := by
  have hunspent : ledger.unspent = sender ::ₘ {tip, low, high, precommitCoin} := by
    simp only [ledger, Multiset.insert_eq_cons]
    rw [Multiset.cons_swap sender, Multiset.cons_swap sender, Multiset.cons_swap sender]
    exact congrArg (tip ::ₘ low ::ₘ high ::ₘ ·) (Multiset.pair_comm ..)
  refine ⟨{tip, low, high, precommitCoin}, hunspent, ?_, ?_⟩
  · exact ⟨sender_bears, rfl, schedulerLauncher, schedulerLauncher_id, Or.inr rfl⟩
  · intro c hc hlegit
    obtain ⟨hbears, hodd, -⟩ := hlegit
    simp only [Multiset.insert_eq_cons, Multiset.mem_cons, Multiset.mem_singleton] at hc
    rcases hc with rfl | rfl | rfl | rfl
    · exact launcherId_ne (tip_bears.unique table_collisionFree hbears)
    · exact absurd hodd (by decide)
    · exact absurd hodd (by decide)
    · exact precommit_not_bears hbears

theorem isSlotCoin {value : Clvm} (h : table.slotCoin constants.handleSlot1stCurryHash value
    = some (slotHash value)) :
    IsSlotCoin programs table kind.slotKinds ⟨eveId, slotHash value, 0⟩ :=
  ⟨isSlot_of_slotCoin (by simp [RegistryKind.slotKinds, Xchandles.slotKinds]) h, eve, eve_id,
    eve_bears⟩

theorem slotsOf_ledger : slotsOf programs table kind.slotKinds ledger.unspent
    = {slotHash (lowSlot .nil), slotHash highSlot} := by
  have hsum : ledger.unspent = {tip} + ({low} + ({high} + ({precommitCoin} + {sender}))) := by
    simp only [ledger, Multiset.insert_eq_cons, Multiset.singleton_add]
  have htip : slotsOf programs table kind.slotKinds {tip} = 0 := slotsOf_eq_zero fun c hc h => by
    rw [Multiset.mem_singleton.1 hc] at h
    exact programs.not_owned_of_isSlot table_collisionFree h.1 tip_bears
  have hcoin : slotsOf programs table kind.slotKinds {precommitCoin} = 0 :=
      slotsOf_eq_zero fun c hc h => by
    rw [Multiset.mem_singleton.1 hc] at h
    exact precommit_not_slot h.1
  have hsender : slotsOf programs table kind.slotKinds {sender} = 0 :=
      slotsOf_eq_zero fun c hc h => by
    rw [Multiset.mem_singleton.1 hc] at h
    exact Programs.not_owned_of_isSlot (P := { programs with launcherId := schedulerLauncherId })
      table_collisionFree h.1 sender_bears
  have hlow : slotsOf programs table kind.slotKinds {low} = {slotHash (lowSlot .nil)} :=
    slotsOf_singleton (isSlotCoin low_slotCoin)
  have hhigh : slotsOf programs table kind.slotKinds {high} = {slotHash highSlot} :=
    slotsOf_singleton (isSlotCoin high_slotCoin)
  rw [hsum, map_add, map_add, map_add, map_add, htip, hcoin, hsender, hlow, hhigh, zero_add,
    add_zero, add_zero, Multiset.singleton_add]
  rfl

theorem embodies : Embodies programs machine kind.slotKinds ledger tip registry where
  wellFormed := ledger_wellFormed
  stands := ⟨by simp [ledger, programs], tip_only, _, tip_carries⟩
  carries := tip_carries
  live := by
    refine ⟨0, ?_, fun _ h => absurd h (Multiset.notMem_zero _)⟩
    rw [add_zero]
    exact slotsOf_ledger.symm

theorem stands : scheduler.Stands programs machine ledger sender 0 where
  stands := ⟨by simp [ledger, scheduler], sender_only, 0, by decide, sender_carries⟩
  carries := sender_carries
  le := by decide

theorem starts : Xchandles.Starts table constants Xchandles.Example.sentinels registry :=
  Xchandles.starts_of_coins low_slotCoin high_slotCoin

theorem kinds_ne : constants.handleSlot1stCurryHash ≠ constants.updateSlot1stCurryHash := by
  intro heq
  have hsame := HashOracle.treeHash_inj table_collisionFree
    (@slotFirst_eq .nil (by simp [skeletons]))
    ((@slotFirst_eq (.atom [1]) (by simp [skeletons])).trans (congrArg some heq.symm))
  cases hsame

theorem exists_follows : ∃ l, Follows machine ledger [block] l := by
  obtain ⟨l, hvalid⟩ := exists_valid
  exact ⟨l, .next .start hvalid⟩

/-! ### The precommit coin is lawful -/

theorem precommit_main : (Rue.precommit table (precommits.curried programs (.atom refundPuzzleHash))
    precommitArguments).map encode = some (encode precommitOut) := by
  have hmain : Rue.precommit table (precommits.curried programs (.atom refundPuzzleHash))
      precommitArguments = some precommitOut :=
    bind_intro rfl (bind_intro rfl (bind_intro state_curry rfl))
  rw [hmain]
  rfl

theorem eval_precommit : machine.eval precommitPuzzle precommitArguments
    = some (encode precommitOut) :=
  @eval_of_mem (precommitPuzzle, precommitArguments, encode precommitOut)
    (compiled_curry (by decide)) (by simp [outputs])

/-- The run of the CAT layer. -/
theorem cat_run : Nonempty (cat.CatLayerRun machine tailHash precommitPuzzle
    (encode catConditions)) := ⟨{
    innerSolution := precommitArguments
    innerOut := encode precommitOut
    tailHashHash := tailHashHash
    own := [.assertMyCoinId (.atom precommitId)]
    inner_eq := eval_precommit
    tail_eq := tail_eq
    conditions_perm := by
      have hmorph : cat.morph table (.atom tailHashHash)
          (.createCoin (.atom refundPuzzleHash) (.ofInt 8) [.atom refundPuzzleHash])
            = some (.createCoin (.atom paidPuzzleHash) (.ofInt 8) [.atom refundPuzzleHash]) := by
        have hpaid : cat.puzzleHash table (.atom tailHashHash) (.atom refundPuzzleHash)
            = some paidPuzzleHash := paid_made
        rw [CatLayer.morph, if_neg (by decide), hpaid]
        rfl
      have hfirst : ∀ h, cat.morph table (.atom tailHashHash) (.assertHeightRelative h)
          = some (.assertHeightRelative h) := fun _ => rfl
      have hsecond : ∀ a, cat.morph table (.atom tailHashHash) (.assertMyAmount a)
          = some (.assertMyAmount a) := fun _ => rfl
      show List.Perm _ (_ ++ List.filterMap (cat.morph table (.atom tailHashHash)) _)
      rw [conditionsOf_encode, conditionsOf_encode, precommitOut,
        List.filterMap_cons_some (hfirst _), List.filterMap_cons_some (hsecond _),
        List.filterMap_cons_some hmorph]
      exact List.Perm.refl _
    silent := fun _ => List.forall_mem_singleton.2 ⟨_, rfl⟩
    wraps := by
      intro ph amount memos hmem _
      rw [conditionsOf_encode] at hmem
      simp only [precommitOut, List.mem_cons, List.not_mem_nil, Condition.createCoin.injEq,
        reduceCtorEq, false_or, or_false] at hmem
      obtain ⟨rfl, -, -⟩ := hmem
      exact ⟨_, paid_made⟩ }⟩

theorem precommits_lawful : precommits.Lawful programs machine where
  cat := {
    treeHash_program := cat_eq
    run := by
      intro tail innerPuzzle solution out h
      have hmem := mem_outputs (compiled_curry (by decide)) h
      simp only [outputs, List.mem_cons, List.not_mem_nil, Prod.mk.injEq, or_false] at hmem
      rcases hmem with ⟨hp, -⟩ | ⟨hp, -⟩ | ⟨hp, -⟩ | ⟨hp, -⟩ | ⟨hp, -⟩ | ⟨hp, -⟩ |
        ⟨hp, rfl, rfl⟩ | ⟨hp, -⟩
      · cases (curry_inj.1 hp).1
      · cases (curry_inj.1 hp).1
      · cases (curry_inj.1 hp).1
      · cases (curry_inj.1 hp).1
      · cases (curry_inj.1 hp).1
      · cases hp
      · have harguments := (curry_inj.1 hp).2
        simp only [List.cons.injEq, and_true] at harguments
        obtain ⟨-, rfl, rfl⟩ := harguments
        exact cat_run
      · cases (curry_inj.1 hp).1 }
  first_hash := precommitFirst_eq
  runs := by
    intro refundPuzzleHash' value solution out h
    have hmem := mem_outputs (compiled_curry (by rintro ⟨⟩)) h
    simp only [outputs, List.mem_cons, List.not_mem_nil, Prod.mk.injEq, or_false] at hmem
    rcases hmem with ⟨hp, -⟩ | ⟨hp, -⟩ | ⟨hp, -⟩ | ⟨hp, -⟩ | ⟨hp, -⟩ | ⟨hp, -⟩ | ⟨hp, -⟩ |
      ⟨hp, rfl, rfl⟩
    · cases (curry_inj.1 hp).1
    · cases (curry_inj.1 hp).1
    · cases (curry_inj.1 (curry_inj.1 hp).1).1
    · cases (curry_inj.1 hp).1
    · cases (curry_inj.1 hp).1
    · cases hp
    · cases (curry_inj.1 hp).1
    · have harguments := (curry_inj.1 hp).2
      simp only [List.cons.injEq, and_true] at harguments
      obtain ⟨rfl, rfl⟩ := harguments
      exact precommit_main

/-- The height of the precommit coin; every other coin is younger. -/
def born (c : Coin) : ℕ := if c = precommitCoin then 50 else 101

theorem timed : Timed born [block] where
  born_lt := by
    intro b hb c hc
    obtain rfl := List.mem_singleton.1 hb
    have hne : c ≠ precommitCoin := by
      rintro rfl
      rcases hc with hc | ⟨s, hs, hc⟩
      · exact absurd hc List.not_mem_nil
      · obtain ⟨l, hvalid⟩ := exists_valid
        exact (id_ne ((hvalid.readable s hs).begets.child _ hc)).2.2 rfl
    rw [born, if_neg hne]
    decide
  reached := by
    intro b hb s hs height hheight
    obtain rfl := List.mem_singleton.1 hb
    simp only [block, List.mem_cons, List.not_mem_nil, or_false] at hs
    rcases hs with rfl | rfl | rfl | rfl
    · simp [tipSpend, tipConditions, actionConditions, stateCondition, coinConditions,
        oracleConditions] at hheight
    · simp [slotSpend, slotConditions] at hheight
    · obtain rfl : height = .ofInt 32 := by simpa [precommitSpend, catConditions] using hheight
      have hborn : born precommitSpend.coin = 50 := if_pos rfl
      have hread : readUint 4 (.ofInt 32) = .value 32 := readUint_natCast (by decide)
      rw [hread, hborn]
      simp [Reading.ReachedSince, block]
    · simp [senderSpend, senderConditions] at hheight

end Example

/-! ## The registry -/

/-- **The chain refines the registry.**  Every chain of blocks that full nodes accept, from a
ledger that embodies a registry, is a history of this registry: in each block the spends of
its singleton are spends of the registry, in the order of the block, each of them with the
state that the one before it left, and the slots that the block spends and creates are those
of their actions.  After it the ledger embodies the registry that this history leads to. -/
theorem chain_refines_registry (M : Machine) (hH : M.hash.CollisionFree) {M₀ : Machine}
    (hM : M₀.hash = M.hash) (kind : RegistryKind) {P : Programs}
    {program : (kind.contract M₀).Action → Clvm} {tree : Merkle.Tree Bytes}
    (hP : P.Lawful M (kind.contract M₀) kind.slotKinds program tree) {l₀ l : Ledger} {tip₀ : Coin}
    {r₀ : Registry} (h₀ : Embodies P M kind.slotKinds l₀ tip₀ r₀) {blocks : List Consensus.Block}
    (h : Follows M l₀ blocks l) :
    ∃ (events : List (Event (kind.contract M₀).Action)) (r : Registry) (tip : Coin),
      Run (kind.contract M₀).run r₀ events r ∧
      List.Forall₂ (fun b e => ∃ turns, Mirrors P M (kind.contract M₀) kind.slotKinds b e turns)
        blocks events ∧
      Embodies P M kind.slotKinds l tip r :=
  exists_run hH hM (kind.slotted M₀) hP h₀ h

open Example in
theorem chain_refines_registry_block : ∃ l, Follows machine ledger [block] l ∧
    ∃ (events : List (Event (kind.contract inner).Action)) (r : Registry) (tip : Coin),
      Run (kind.contract inner).run registry events r ∧
      List.Forall₂ (fun b e => ∃ turns, Mirrors programs machine (kind.contract inner)
        kind.slotKinds b e turns) [block] events ∧
      Embodies programs machine kind.slotKinds l tip r := by
  obtain ⟨l, hl⟩ := exists_follows
  exact ⟨l, hl, chain_refines_registry machine table_collisionFree hash_inner kind lawful embodies
    hl⟩

/-! ## The handles -/

section Handles

variable {M M₀ : Machine} {K : Xchandles.Constants} {P : Programs}
  {program : (Xchandles.contract M₀ K).Action → Clvm} {tree : Merkle.Tree Bytes} {l₀ l l' : Ledger}
  {tip₀ : Coin} {r₀ : Registry} {blocks : List Consensus.Block} {S : Xchandles.Sentinels}

/-- **The list of handles on the chain.**  After every chain from the launch on, the unspent
coins that are slots of XCHandles hold one list of handles, sorted by key and doubly linked
from the low sentinel to the high one.  Its keys are those of the sentinels and of the
handles that the blocks have registered, none of them twice. -/
theorem chain_handles_doublyLinked (hH : M.hash.CollisionFree) (hM : M₀.hash = M.hash)
    (hK : K.handleSlot1stCurryHash ≠ K.updateSlot1stCurryHash)
    (hP : P.Lawful M (Xchandles.contract M₀ K) (Xchandles.slotKinds K) program tree)
    (hstart : Xchandles.Starts M.hash K S r₀)
    (h₀ : Embodies P M (Xchandles.slotKinds K) l₀ tip₀ r₀) (h : Follows M l₀ blocks l) :
    ∃ (events : List (Event (Xchandles.contract M₀ K).Action)) (items : Multiset Xchandles.Item),
      List.Forall₂ (fun b e => ∃ turns, Mirrors P M (Xchandles.contract M₀ K)
        (Xchandles.slotKinds K) b e turns) blocks events ∧
      SlotsOn P M K l items ∧
      (∃ nodes : List (SortedList.Node Bytes),
        Xchandles.nodesOf items = (nodes.map (SortedList.written Xchandles.atoms) :
          List (Option (SortedList.Node Clvm))) ∧ SortedList.DoublyLinked S.low S.high nodes) ∧
      (Xchandles.keysOf items).Nodup ∧
      Xchandles.keysOf items = some (.atom S.low) ::ₘ some (.atom S.high)
        ::ₘ (((Xchandles.allRegistered events).map some : List (Option Clvm)) :
          Multiset (Option Clvm)) := by
  obtain ⟨events, r, tip, hrun, hmirrors, hr⟩ :=
    exists_run hH hM (Xchandles.slotted M₀ K) hP h₀ h
  obtain ⟨items, hitems, -, hnodes, hnodup, hkeys⟩ := exists_list hH hM hK hstart hrun hr
  exact ⟨events, items, hmirrors, hitems, hnodes, hnodup, hkeys⟩

open Example in
theorem chain_handles_doublyLinked_block : ∃ l, Follows machine ledger [block] l ∧
    ∃ (events : List (Event (Xchandles.contract inner constants).Action))
      (items : Multiset Xchandles.Item),
      List.Forall₂ (fun b e => ∃ turns, Mirrors programs machine
        (Xchandles.contract inner constants) (Xchandles.slotKinds constants) b e turns)
        [block] events ∧
      SlotsOn programs machine constants l items ∧
      (∃ nodes : List (SortedList.Node Bytes),
        Xchandles.nodesOf items = (nodes.map (SortedList.written Xchandles.atoms) :
          List (Option (SortedList.Node Clvm))) ∧
        SortedList.DoublyLinked Xchandles.Example.sentinels.low Xchandles.Example.sentinels.high
          nodes) ∧
      (Xchandles.keysOf items).Nodup ∧
      Xchandles.keysOf items = some (.atom Xchandles.Example.sentinels.low)
        ::ₘ some (.atom Xchandles.Example.sentinels.high)
        ::ₘ (((Xchandles.allRegistered events).map some : List (Option Clvm)) :
          Multiset (Option Clvm)) := by
  obtain ⟨l, hl⟩ := exists_follows
  exact ⟨l, hl, chain_handles_doublyLinked table_collisionFree hash_inner kinds_ne lawful starts
    embodies hl⟩

end Handles

/-! ## The price schedule -/

/-- **Precommit coins are redeemed.**  On every chain, the precommit coins of a CAT that a
block spends are those that the steps of the registry pay, each of them once.  Each was
created by a block that is at least as far below as the relative lock says, and pays its
whole amount, as the same CAT, to the payout puzzle or to the refund puzzle that it commits
to, whichever the message says.  No coin is spent twice. -/
theorem precommits_redeemed (M : Machine) (hH : M.hash.CollisionFree) {M₀ : Machine}
    (hM : M₀.hash = M.hash) (kind : RegistryKind) {P : Programs} {Q : Precommits}
    {program : (kind.contract M₀).Action → Clvm} {tree : Merkle.Tree Bytes}
    (hP : P.Lawful M (kind.contract M₀) kind.slotKinds program tree) (hQ : Q.Lawful P M)
    (hheight : 0 ≤ Q.relativeBlockHeight) {l₀ l : Ledger} {tip₀ : Coin} {r₀ : Registry}
    (h₀ : Embodies P M kind.slotKinds l₀ tip₀ r₀) {blocks : List Consensus.Block}
    {born : Coin → ℕ} (htimed : Timed born blocks) (h : Follows M l₀ blocks l) :
    (spentCoins blocks).Nodup ∧
    (∀ b ∈ blocks, ∀ s ∈ b.spends,
      s.coin ∈ l₀.unspent ∨ ∃ b₀ ∈ blocks, b₀.Creates s.coin) ∧
    ∃ (events : List (Event (kind.contract M₀).Action)) (r : Registry) (tip : Coin),
      Run (kind.contract M₀).run r₀ events r ∧
      List.Forall₂ (fun b e =>
        (∃ turns, Mirrors P M (kind.contract M₀) kind.slotKinds b e turns) ∧
        ∃ spendMode, Redeemed Q M.hash blocks b e.steps spendMode) blocks events ∧
      Embodies P M kind.slotKinds l tip r :=
  ⟨h.spent_nodup hH h₀.wellFormed, fun _ hb _ hs => h.exists_creates_of_spent hb hs,
    exists_redeemed_run hH hM (kind.slotted M₀) hP hQ hheight h₀ htimed (List.Subset.refl _) h⟩

open Example in
theorem precommits_redeemed_block : ∃ l, Follows machine ledger [block] l ∧
    (spentCoins [block]).Nodup ∧
    (∀ b ∈ [block], ∀ s ∈ b.spends,
      s.coin ∈ ledger.unspent ∨ ∃ b₀ ∈ [block], b₀.Creates s.coin) ∧
    ∃ (events : List (Event (kind.contract inner).Action)) (r : Registry) (tip : Coin),
      Run (kind.contract inner).run registry events r ∧
      List.Forall₂ (fun b e =>
        (∃ turns, Mirrors programs machine (kind.contract inner) kind.slotKinds b e turns) ∧
        ∃ spendMode, Redeemed precommits machine.hash [block] b e.steps spendMode)
        [block] events ∧
      Embodies programs machine kind.slotKinds l tip r := by
  obtain ⟨l, hl⟩ := exists_follows
  exact ⟨l, hl, precommits_redeemed machine table_collisionFree hash_inner kind lawful
    precommits_lawful (by decide) embodies timed hl⟩

/-- **Openings are honored.**  On every chain, an action of XCHandles that opens a precommit
coin (a registration, the purchase of an expired handle, or a refund) makes one payment, to
this coin, and no other action makes any.  If its CAT maker is the default one then the same
block spends a coin that commits to the opening, which is worth the price that the pricing
puzzle asked for or the amount that is refunded, and which was created at least as many
blocks before as the relative lock says.  All of it goes to the payout puzzle if the action
uses the coin, and to the refund puzzle that the coin commits to if it refunds it. -/
theorem openings_honored {M : Machine} (hH : M.hash.CollisionFree) {M₀ : Machine}
    (hM : M₀.hash = M.hash) {K : Xchandles.Constants} {P : Programs} {Q : Precommits}
    {program : (Xchandles.contract M₀ K).Action → Clvm} {tree : Merkle.Tree Bytes}
    (hP : P.Lawful M (Xchandles.contract M₀ K) (Xchandles.slotKinds K) program tree)
    (hQ : Q.Lawful P M) (hheight : 0 ≤ Q.relativeBlockHeight)
    (hfirst : K.precommit1stCurryHash = Q.firstHash) {l₀ l : Ledger} {tip₀ : Coin}
    {r₀ : Registry} (h₀ : Embodies P M (Xchandles.slotKinds K) l₀ tip₀ r₀)
    {blocks : List Consensus.Block} {born : Coin → ℕ} (htimed : Timed born blocks)
    (h : Follows M l₀ blocks l) :
    ∃ (events : List (Event (Xchandles.contract M₀ K).Action)) (r : Registry),
      Run (Xchandles.contract M₀ K).run r₀ events r ∧
      List.Forall₂ (fun b e =>
        (∃ turns, Mirrors P M (Xchandles.contract M₀ K) (Xchandles.slotKinds K) b e turns) ∧
        ∀ x ∈ e.steps,
          (payments x.conditions ≠ 0 → ∃ maker o p,
            Xchandles.Reveals M₀ K x.truth x.call.solution x.call.action maker o p) ∧
          ∀ maker o p, Xchandles.Reveals M₀ K x.truth x.call.solution x.call.action maker o p →
            payments x.conditions = {p} ∧ (UsesCat M₀ Q maker → Honored Q M.hash blocks b o p))
        blocks events := by
  obtain ⟨events, r, tip, hrun, hevents, -⟩ := exists_redeemed_run hH hM (Xchandles.slotted M₀ K)
    hP hQ hheight h₀ htimed (List.Subset.refl _) h
  refine ⟨events, r, hrun, hevents.imp ?_⟩
  rintro b e ⟨⟨turns, hmirrors⟩, spendMode, hredeemed⟩
  refine ⟨⟨turns, hmirrors⟩, fun x hx => ?_⟩
  have hstep : (Xchandles.contract M₀ K).run x.call.action x.truth x.call.solution
      = some (x.truth', x.conditions) := hmirrors.run_eq hx
  refine ⟨fun hpays => Xchandles.exists_reveals hstep hpays, fun maker o p hreveals => ?_⟩
  refine ⟨hreveals.payments_eq hstep, fun hmaker => ?_⟩
  rw [← hM] at hredeemed ⊢
  exact hredeemed.honored hfirst hx hstep hreveals hmaker

open Example in
theorem openings_honored_block : ∃ l, Follows machine ledger [block] l ∧
    ∃ (events : List (Event (Xchandles.contract inner constants).Action)) (r : Registry),
      Run (Xchandles.contract inner constants).run registry events r ∧
      List.Forall₂ (fun b e =>
        (∃ turns, Mirrors programs machine (Xchandles.contract inner constants)
          (Xchandles.slotKinds constants) b e turns) ∧
        ∀ x ∈ e.steps,
          (payments x.conditions ≠ 0 → ∃ maker o p,
            Xchandles.Reveals inner constants x.truth x.call.solution x.call.action maker o p) ∧
          ∀ maker o p,
            Xchandles.Reveals inner constants x.truth x.call.solution x.call.action maker o p →
            payments x.conditions = {p} ∧
              (UsesCat inner precommits maker → Honored precommits machine.hash [block] b o p))
        [block] events := by
  obtain ⟨l, hl⟩ := exists_follows
  exact ⟨l, hl, openings_honored table_collisionFree hash_inner lawful precommits_lawful
    (by decide) rfl embodies timed hl⟩

end SlotMachine.Onchain
