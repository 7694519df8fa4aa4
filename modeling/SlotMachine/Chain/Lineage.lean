import SlotMachine.Chain.Encoding
import SlotMachine.Clvm.Curry

/-!
# Spends and singletons

A block is a set of spends.  A spend reveals the puzzle of its coin and runs it; what the
puzzle announces can be asserted by every other spend of the block.  A singleton is a chain
of coins that starts at its launcher.

* `CoinSpend`, `Announces`, `Announced` — the spends, and what an asserted puzzle
  announcement is matched with.
* `Chain` — all spends up to a block.
* `Genuine` — **a coin descends from the launcher** of the singleton its puzzle names.
-/

namespace SlotMachine.Lineage

/-- A coin.  `parentCoinInfo` is the id of the coin whose spend created it. -/
structure Coin where
  parentCoinInfo : Bytes
  puzzleHash : Bytes
  amount : ℕ
  deriving DecidableEq

/-- The id of a coin. -/
def Coin.id (H : HashOracle) (coin : Coin) : Option Bytes :=
  H.coinid (.atom coin.parentCoinInfo) (.atom coin.puzzleHash) (.ofInt coin.amount)

/-- The spend of a coin. -/
structure CoinSpend where
  coin : Coin
  puzzleReveal : Clvm
  solution : Clvm
  deriving DecidableEq

/-- What `coinid` returns is the id of a coin. -/
theorem exists_coin_of_coinid {H : HashOracle} {parent puzzleHash amount : Clvm} {d : Bytes}
    (h : H.coinid parent puzzleHash amount = some d) :
    ∃ coin : Coin, coin.id H = some d ∧ parent = .atom coin.parentCoinInfo ∧
      puzzleHash = .atom coin.puzzleHash := by
  obtain ⟨p, ph, a, rfl, rfl, rfl, -, -, hvalid, -⟩ := HashOracle.coinid_eq_some.1 h
  unfold HashOracle.validAmount at hvalid
  obtain ⟨hcanonical, hnonneg, -⟩ := of_decide_eq_true hvalid
  refine ⟨⟨p, ph, (intFromBytes a).toNat⟩, ?_, rfl, rfl⟩
  unfold Coin.id Clvm.ofInt
  rw [Int.toNat_of_nonneg hnonneg, hcanonical]
  exact h

/-- The ids of two coins are only equal if the coins are. -/
theorem Coin.eq_of_id {H : HashOracle} (hH : H.CollisionFree) {parent puzzleHash amount : Clvm}
    {coin : Coin} {d : Bytes} (h : coin.id H = some d)
    (h' : H.coinid parent puzzleHash amount = some d) :
    parent = .atom coin.parentCoinInfo ∧ puzzleHash = .atom coin.puzzleHash := by
  obtain ⟨hparent, hpuzzleHash, -⟩ := HashOracle.coinid_inj hH h' h
  exact ⟨hparent, hpuzzleHash⟩

/-- What the id of a coin was hashed from, if it starts with 64 bytes for its parent and its
puzzle hash, has this puzzle hash. -/
theorem Coin.puzzleHash_eq_of_digest {H : HashOracle} (hH : H.CollisionFree) {coin : Coin}
    {info ph amount d : Bytes} (h : coin.id H = some d) (hinfo : info.length = 32)
    (hph : ph.length = 32) (h' : H.digest (info ++ ph ++ amount) = some d) :
    coin.puzzleHash = ph := by
  obtain ⟨p, ph', a, hp, hph', -, hlength, hlength', -, hdigest⟩ := HashOracle.coinid_eq_some.1 h
  have happ := hH hdigest h'
  rw [List.append_assoc, List.append_assoc] at happ
  obtain ⟨-, htail⟩ := List.append_inj happ (hlength.trans hinfo.symm)
  obtain ⟨rfl, -⟩ := List.append_inj htail (hlength'.trans hph.symm)
  exact Clvm.atom.inj hph'

/-! ## Announcements -/

/-- The elements of a list, up to the atom that ends it. -/
def elements : Clvm → List Clvm
  | .atom _ => []
  | .pair first rest => first :: elements rest

@[simp] theorem elements_ofList (vs : List Clvm) : elements (.ofList vs) = vs := by
  induction vs with
  | nil => rfl
  | cons v vs ih => rw [Clvm.ofList, elements, ih]

/-- Among the conditions there is `CREATE_PUZZLE_ANNOUNCEMENT` with the message. -/
def Announces (conditions : Clvm) (message : Bytes) : Prop :=
  ∃ rest, .pair (.atom [62]) (.pair (.atom message) rest) ∈ elements conditions

/-- The spend makes the puzzle announcement with the id. -/
def CoinSpend.Makes (M : Machine) (spend : CoinSpend) (id : Bytes) : Prop :=
  ∃ conditions message, M.eval spend.puzzleReveal spend.solution = some conditions ∧
    Announces conditions message ∧
    M.hash.digest (spend.coin.puzzleHash ++ message) = some id

/-- Some spend of the block makes it, so that it can be asserted. -/
def Announced (M : Machine) (block : List CoinSpend) (id : Bytes) : Prop :=
  ∃ spend ∈ block, spend.Makes M id

/-- An announcement is in the conditions of a puzzle if it is among them. -/
theorem announces_encode {cs : List Condition} {message : Bytes} :
    Announces (encode cs) message ↔ .createPuzzleAnnouncement (.atom message) ∈ cs := by
  unfold Announces encode
  rw [elements_ofList]
  constructor
  · rintro ⟨rest, h⟩
    obtain ⟨c, hc, heq⟩ := List.mem_map.1 h
    cases c <;> simp_all [Condition.toClvm, Clvm.ofList]
  · intro h
    exact ⟨.nil, List.mem_map.2 ⟨_, h, rfl⟩⟩

/-! ## The chain -/

/-- All spends up to a block.  A coin was created by a spend, except for the rewards, whose
parents are not coins. -/
structure Chain (M : Machine) where
  spends : List CoinSpend
  rewards : List Bytes
  reveal : ∀ s ∈ spends, M.hash.treeHash s.puzzleReveal = some s.coin.puzzleHash
  created : ∀ s ∈ spends, s.coin.parentCoinInfo ∈ rewards ∨
    ∃ parent ∈ spends, parent.coin.id M.hash = some s.coin.parentCoinInfo
  reward_ne : ∀ (coin : Coin) (id : Bytes), coin.id M.hash = some id → id ∉ rewards

/-- What the singleton top layer is made of: its program, and the hashes that every
singleton has in its first argument beside the id of its launcher. -/
structure SingletonTopLayer where
  program : Clvm
  modHash : Bytes
  launcherPuzzleHash : Bytes

namespace SingletonTopLayer

variable (T : SingletonTopLayer) (M : Machine)

/-- `(MOD_HASH . (LAUNCHER_ID . LAUNCHER_PUZZLE_HASH))`. -/
def struct (launcherId : Bytes) : Clvm :=
  .pair (.atom T.modHash) (.pair (.atom launcherId) (.atom T.launcherPuzzleHash))

/-- The puzzle of a singleton. -/
def puzzle (launcherId : Bytes) (innerPuzzle : Clvm) : Clvm :=
  Clvm.curry T.program [T.struct launcherId, innerPuzzle]

/-- The coin has the puzzle and an amount of a singleton. -/
def HasPuzzle (launcherId : Bytes) (coin : Coin) : Prop :=
  coin.amount % 2 = 1 ∧
    ∃ innerPuzzle, M.hash.treeHash (T.puzzle launcherId innerPuzzle) = some coin.puzzleHash

/-- **The coin descends from the launcher**: its parent is the launcher, or descends from
it and was spent. -/
inductive Genuine (spends : List CoinSpend) (launcherId : Bytes) : Coin → Prop
  | eve {launcher : CoinSpend} {coin : Coin} (spent : launcher ∈ spends)
      (id_eq : launcher.coin.id M.hash = some launcherId)
      (puzzleHash_eq : launcher.coin.puzzleHash = T.launcherPuzzleHash)
      (hasPuzzle : T.HasPuzzle M launcherId coin)
      (parent_eq : coin.parentCoinInfo = launcherId) : Genuine spends launcherId coin
  | child {parent : CoinSpend} {coin : Coin} (spent : parent ∈ spends)
      (genuine : Genuine spends launcherId parent.coin)
      (hasPuzzle : T.HasPuzzle M launcherId coin)
      (id_eq : parent.coin.id M.hash = some coin.parentCoinInfo) :
      Genuine spends launcherId coin

/-- What a spend of a singleton is known to do: it runs the inner puzzle with the third part
of its solution, and makes no puzzle announcement that this does not make. -/
structure Lawful : Prop where
  treeHash_program : M.hash.treeHash T.program = some T.modHash
  announces : ∀ {launcherId message : Bytes} {innerPuzzle solution conditions : Clvm},
    M.eval (T.puzzle launcherId innerPuzzle) solution = some conditions →
    Announces conditions message →
    ∃ lineageProof myAmount innerSolution rest innerConditions,
      solution = .pair lineageProof (.pair myAmount (.pair innerSolution rest)) ∧
      M.eval innerPuzzle innerSolution = some innerConditions ∧
      Announces innerConditions message

variable {T M}

/-- **A puzzle with the hash of a singleton is one**, with an inner puzzle of the hash that
went into it. -/
theorem exists_innerPuzzle (hH : M.hash.CollisionFree) (hT : T.Lawful M)
    {v innerPuzzleHash : Clvm} {launcherId structHash d : Bytes}
    (hstruct : M.hash.treeHash (T.struct launcherId) = some structHash)
    (hv : M.hash.treeHash v = some d)
    (h : M.hash.curryTreeHash (.atom T.modHash) [.atom structHash, innerPuzzleHash] = some d) :
    ∃ innerPuzzle b, v = T.puzzle launcherId innerPuzzle ∧ innerPuzzleHash = .atom b ∧
      M.hash.treeHash innerPuzzle = some b := by
  obtain ⟨program, _, modHash, rfl, hmod, hprogram, harguments⟩ :=
    HashOracle.exists_curry_of_treeHash hH hv h
  rw [← Clvm.atom.inj hmod] at hprogram
  obtain rfl := HashOracle.treeHash_inj hH hprogram hT.treeHash_program
  cases harguments with
  | cons hfirst hrest =>
    obtain ⟨structHash', hsame, hfirst⟩ := hfirst
    rw [← Clvm.atom.inj hsame] at hfirst
    obtain rfl := HashOracle.treeHash_inj hH hfirst hstruct
    cases hrest with
    | cons hsecond hnil =>
      obtain ⟨b, hb, hsecond⟩ := hsecond
      cases hnil
      exact ⟨_, b, rfl, hb, hsecond⟩

/-- **The launcher of a genuine singleton was spent.** -/
theorem Genuine.exists_launcher {spends : List CoinSpend} {launcherId : Bytes} {coin : Coin}
    (h : T.Genuine M spends launcherId coin) :
    ∃ launcher ∈ spends, launcher.coin.id M.hash = some launcherId ∧
      launcher.coin.puzzleHash = T.launcherPuzzleHash := by
  induction h with
  | eve spent id_eq puzzleHash_eq _ _ => exact ⟨_, spent, id_eq, puzzleHash_eq⟩
  | child _ _ _ _ ih => exact ih

end SingletonTopLayer

end SlotMachine.Lineage
