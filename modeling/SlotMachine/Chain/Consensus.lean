import SlotMachine.Chain.Lineage
import SlotMachine.Ledger.Baton

/-!
# What full nodes check

A block spends coins.  A node runs the puzzle of each of them, reads its conditions, and
rejects the block unless every assertion holds and every message that one spend sends is
received by another one.

* `Condition.ofClvm?`, `conditionsOf` — reading what a puzzle returned;
  `conditionsOf_encode` says that conditions are read as they were written.
* `Spend`, `Spend.created` — a spend with what was read, and the coins it creates.
* `Message`, `sentBy`, `receivedBy` — messages as nodes compare them.
* `Block.Valid`, `Follows` — **a block that is accepted**, and chains of them.
* `exists_receiver`, `exists_sender` — **nobody sends or receives alone**; `channel_eq`
  counts the messages of a kind.

The rules that nodes check beyond these (signatures, fees, announcements, relative time
locks) are left out: without them there are only more chains.
-/

namespace SlotMachine

open Lineage

/-! ## Reading conditions -/

/-- A condition as a node reads it.  It ignores operands it does not know of. -/
def Condition.ofClvm? : Clvm → Option Condition
  | .pair (.atom op) operands =>
      match op, elements operands with
      | [51], puzzleHash :: amount :: rest =>
          some (.createCoin puzzleHash amount (elements (rest.headD .nil)))
      | [62], message :: _ => some (.createPuzzleAnnouncement message)
      | [63], id :: _ => some (.assertPuzzleAnnouncement id)
      | [64], coinId :: _ => some (.assertConcurrentSpend coinId)
      | [66], .atom mode :: message :: receiver =>
          some (.sendMessage (intFromBytes mode).toNat message receiver)
      | [67], .atom mode :: message :: sender =>
          some (.receiveMessage (intFromBytes mode).toNat message sender)
      | [70], coinId :: _ => some (.assertMyCoinId coinId)
      | [71], parentId :: _ => some (.assertMyParentId parentId)
      | [73], amount :: _ => some (.assertMyAmount amount)
      | [81], seconds :: _ => some (.assertSecondsAbsolute seconds)
      | [82], height :: _ => some (.assertHeightRelative height)
      | [83], height :: _ => some (.assertHeightAbsolute height)
      | [85], seconds :: _ => some (.assertBeforeSecondsAbsolute seconds)
      | [87], height :: _ => some (.assertBeforeHeightAbsolute height)
      | _, _ => none
  | _ => none

/-- The conditions in what a puzzle returned. -/
def conditionsOf (out : Clvm) : List Condition := (elements out).filterMap Condition.ofClvm?

/-- **A condition is read as it was written.** -/
@[simp] theorem Condition.ofClvm?_toClvm (c : Condition) : ofClvm? c.toClvm = some c := by
  cases c with
  | createCoin puzzleHash amount memos =>
      cases memos with
      | nil => rfl
      | cons memo memos =>
          show some (createCoin puzzleHash amount (elements (Clvm.ofList (memo :: memos)))) = _
          rw [elements_ofList]
  | sendMessage mode message receiver =>
      show some (sendMessage (intFromBytes (intToBytes mode)).toNat message
        (elements (Clvm.ofList receiver))) = _
      rw [intFromBytes_intToBytes, Int.toNat_natCast, elements_ofList]
  | receiveMessage mode message sender =>
      show some (receiveMessage (intFromBytes (intToBytes mode)).toNat message
        (elements (Clvm.ofList sender))) = _
      rw [intFromBytes_intToBytes, Int.toNat_natCast, elements_ofList]
  | _ => rfl

theorem conditionsOf_ofList (vs : List Clvm) :
    conditionsOf (.ofList vs) = vs.filterMap Condition.ofClvm? := by
  rw [conditionsOf, elements_ofList]

/-- Conditions are read as they were written. -/
@[simp] theorem conditionsOf_encode (cs : List Condition) : conditionsOf (encode cs) = cs := by
  rw [encode, conditionsOf_ofList, List.filterMap_map]
  exact (List.filterMap_congr fun c _ => c.ofClvm?_toClvm).trans (List.filterMap_some ..)

namespace Consensus

/-! ## Spends -/

/-- A spend, with the id of its coin and the conditions that were read. -/
structure Spend where
  spend : CoinSpend
  id : Bytes
  conditions : List Condition

namespace Spend

/-- The coin that is spent. -/
def coin (s : Spend) : Coin := s.spend.coin

/-- The coin that a condition creates, if its operands are valid. -/
def created? (s : Spend) : Condition → Option Coin
  | .createCoin (.atom puzzleHash) amount _ =>
      match readUint 8 amount with
      | .value n => some ⟨s.id, puzzleHash, n⟩
      | _ => none
  | _ => none

/-- The coins that the spend creates. -/
def created (s : Spend) : Multiset Coin := s.conditions.filterMap s.created?

/-- What a spend asserts about its own coin, and the time locks of the block. -/
def Asserts (s : Spend) (height timestamp : ℕ) : Condition → Prop
  | .assertMyCoinId id => id = .atom s.id
  | .assertMyParentId id => id = .atom s.coin.parentCoinInfo
  | .assertMyAmount amount => amount = .ofInt s.coin.amount
  | .assertSecondsAbsolute seconds => (readUint 8 seconds).Reached timestamp
  | .assertBeforeSecondsAbsolute seconds => (readUint 8 seconds).Ahead timestamp
  | .assertHeightAbsolute h => (readUint 4 h).Reached height
  | .assertBeforeHeightAbsolute h => (readUint 4 h).Ahead height
  | _ => True

/-- The spend can be read: its puzzle is that of the coin and runs, its coins are valid,
and no two of them are the same. -/
structure Readable (M : Machine) (s : Spend) : Prop where
  id_eq : s.coin.id M.hash = some s.id
  reveal : M.hash.treeHash s.spend.puzzleReveal = some s.coin.puzzleHash
  runs : ∃ out, M.eval s.spend.puzzleReveal s.spend.solution = some out ∧
    s.conditions = conditionsOf out
  creates : ∀ puzzleHash amount memos, .createCoin puzzleHash amount memos ∈ s.conditions →
    (s.created? (.createCoin puzzleHash amount memos)).isSome
  nodup : s.created.Nodup

theorem created?_eq_some {s : Spend} {c : Condition} {coin : Coin} :
    s.created? c = some coin ↔ ∃ puzzleHash amount memos n,
      c = .createCoin (.atom puzzleHash) amount memos ∧ readUint 8 amount = .value n ∧
        coin = ⟨s.id, puzzleHash, n⟩ := by
  constructor
  · intro h
    unfold created? at h
    split at h
    · split at h
      · exact ⟨_, _, _, _, rfl, ‹_›, (Option.some.inj h).symm⟩
      · cases h
    · cases h
  · rintro ⟨puzzleHash, amount, memos, n, rfl, hread, rfl⟩
    simp only [created?, hread]

theorem mem_created {s : Spend} {coin : Coin} :
    coin ∈ s.created ↔ ∃ c ∈ s.conditions, s.created? c = some coin := by
  rw [created, Multiset.mem_coe, List.mem_filterMap]

end Spend

/-- `p` is the parent of `c`. -/
def ChildOf (H : HashOracle) (c p : Coin) : Prop := p.id H = some c.parentCoinInfo

/-- The coin is a reward: what it has for the id of its parent is no hash. -/
def Orphan (H : HashOracle) (c : Coin) : Prop := ∀ m, H.digest m ≠ some c.parentCoinInfo

/-- A coin has one parent. -/
theorem ChildOf.unique {H : HashOracle} (hH : H.CollisionFree) {c p p' : Coin} (h : ChildOf H c p)
    (h' : ChildOf H c p') : p = p' := by
  obtain ⟨hparent, hpuzzleHash, hamount⟩ := HashOracle.coinid_inj hH h h'
  have heq := congrArg (fun v => v.bytes?.map intFromBytes) hamount
  simp only [Clvm.ofInt, Clvm.bytes?, Option.map_some, intFromBytes_intToBytes,
    Option.some.injEq, Nat.cast_inj] at heq
  obtain ⟨_, _, _⟩ := p
  obtain ⟨_, _, _⟩ := p'
  cases hparent
  cases hpuzzleHash
  cases heq
  rfl

theorem ancestry {H : HashOracle} (hH : H.CollisionFree) :
    Baton.Ancestry (ChildOf H) (Orphan H) where
  functional _ _ _ := ChildOf.unique hH
  orphan := by
    intro c p horphan hp
    obtain ⟨_, _, _, -, -, -, -, -, -, hdigest⟩ := HashOracle.coinid_eq_some.1 hp
    exact horphan _ hdigest

theorem Spend.Readable.begets {M : Machine} {s : Spend} (h : s.Readable M) :
    Baton.Begets (ChildOf M.hash) s.coin s.created where
  nodup := h.nodup
  child := by
    intro c hc
    obtain ⟨_, -, hcreated⟩ := Spend.mem_created.1 hc
    obtain ⟨_, _, _, _, -, -, rfl⟩ := Spend.created?_eq_some.1 hcreated
    exact h.id_eq

/-! ## Messages -/

/-- A message, with what the mode says of its sender and of its receiver. -/
structure Message where
  mode : ℕ
  message : Clvm
  sender : List Clvm
  receiver : List Clvm
  deriving DecidableEq

/-- What three bits of a mode commit to: the id of the coin, or its parent, its puzzle hash
and its amount, each with a bit of its own. -/
def commitment (bits : ℕ) (s : Spend) : List Clvm :=
  if bits = 7 then [.atom s.id]
  else (if bits / 4 % 2 = 1 then [.atom s.coin.parentCoinInfo] else [])
    ++ (if bits / 2 % 2 = 1 then [.atom s.coin.puzzleHash] else [])
    ++ (if bits % 2 = 1 then [.ofInt s.coin.amount] else [])

/-- The message that a condition sends. -/
def sent? (s : Spend) : Condition → Option Message
  | .sendMessage mode message receiver => some ⟨mode, message, commitment (mode / 8) s, receiver⟩
  | _ => none

/-- The message that a condition receives. -/
def received? (s : Spend) : Condition → Option Message
  | .receiveMessage mode message sender => some ⟨mode, message, sender, commitment (mode % 8) s⟩
  | _ => none

/-- The messages that a spend sends. -/
def sentBy (s : Spend) : List Message := s.conditions.filterMap (sent? s)

/-- The messages that a spend receives. -/
def receivedBy (s : Spend) : List Message := s.conditions.filterMap (received? s)

theorem mem_sentBy {s : Spend} {m : Message} :
    m ∈ sentBy s ↔ ∃ mode message receiver, .sendMessage mode message receiver ∈ s.conditions ∧
      m = ⟨mode, message, commitment (mode / 8) s, receiver⟩ := by
  rw [sentBy, List.mem_filterMap]
  constructor
  · rintro ⟨c, hc, hsent⟩
    cases c <;> simp only [sent?, Option.some.injEq, reduceCtorEq] at hsent
    exact ⟨_, _, _, hc, hsent.symm⟩
  · rintro ⟨mode, message, receiver, hc, rfl⟩
    exact ⟨_, hc, rfl⟩

theorem mem_receivedBy {s : Spend} {m : Message} :
    m ∈ receivedBy s ↔ ∃ mode message sender, .receiveMessage mode message sender ∈ s.conditions ∧
      m = ⟨mode, message, sender, commitment (mode % 8) s⟩ := by
  rw [receivedBy, List.mem_filterMap]
  constructor
  · rintro ⟨c, hc, hreceived⟩
    cases c <;> simp only [received?, Option.some.injEq, reduceCtorEq] at hreceived
    exact ⟨_, _, _, hc, hreceived.symm⟩
  · rintro ⟨mode, message, sender, hc, rfl⟩
    exact ⟨_, hc, rfl⟩

/-! ## Blocks -/

/-- A block: its spends, each one after the spend that creates its coin, and its rewards.
Absolute time locks are checked against the height and the timestamp. -/
structure Block where
  height : ℕ
  timestamp : ℕ
  spends : List Spend
  rewards : List Coin

/-- The messages of a block. -/
def Block.sent (b : Block) : Multiset Message := (b.spends.flatMap sentBy : List Message)

def Block.received (b : Block) : Multiset Message := (b.spends.flatMap receivedBy : List Message)

/-- The unspent coins, and the spent ones. -/
abbrev Ledger := Baton.Ledger Coin

/-- The block is accepted, and takes the ledger from `l` to `l'`. -/
structure Block.Valid (M : Machine) (l : Ledger) (b : Block) (l' : Ledger) : Prop where
  readable : ∀ s ∈ b.spends, s.Readable M
  asserts : ∀ s ∈ b.spends, ∀ c ∈ s.conditions, s.Asserts b.height b.timestamp c
  messages : b.sent = b.received
  /-- Rewards are new coins. -/
  rewards_nodup : b.rewards.Nodup
  rewards_fresh : ∀ c ∈ b.rewards, c ∉ l.spent + l.unspent
  rewards_orphan : ∀ c ∈ b.rewards, Orphan M.hash c
  spends : Baton.Spends Spend.coin Spend.created ⟨l.spent, l.unspent + b.rewards⟩ b.spends l'

/-- A chain of blocks. -/
inductive Follows (M : Machine) (l₀ : Ledger) : List Block → Ledger → Prop where
  | start : Follows M l₀ [] l₀
  | next {past : List Block} {l l' : Ledger} {b : Block} :
      Follows M l₀ past l → b.Valid M l l' → Follows M l₀ (past ++ [b]) l'

section

variable {M : Machine} {l l' : Ledger} {b : Block}

/-- **A block keeps the ledger well-formed.** -/
theorem Block.Valid.wellFormed (hH : M.hash.CollisionFree) (h : b.Valid M l l')
    (hl : l.WellFormed (ChildOf M.hash) (Orphan M.hash)) :
    l'.WellFormed (ChildOf M.hash) (Orphan M.hash) :=
  (hl.reward (Multiset.coe_nodup.2 h.rewards_nodup) h.rewards_fresh h.rewards_orphan).spends
    (ancestry hH) h.spends fun s hs => (h.readable s hs).begets

/-- A coin that is spent is a reward, or some spend created it. -/
theorem Block.Valid.exists_parent (h : b.Valid M l l')
    (hl : l.WellFormed (ChildOf M.hash) (Orphan M.hash)) {s : Spend} (hs : s ∈ b.spends) :
    Orphan M.hash s.coin ∨ ∃ p, ChildOf M.hash s.coin p :=
  (hl.reward (Multiset.coe_nodup.2 h.rewards_nodup) h.rewards_fresh
    h.rewards_orphan).exists_parent h.spends (fun s hs => (h.readable s hs).begets) hs

/-- **Every message that is received is sent**, by a spend of the same block. -/
theorem Block.Valid.exists_sender (h : b.Valid M l l') {s : Spend} (hs : s ∈ b.spends)
    {m : Message} (hm : m ∈ receivedBy s) : ∃ s' ∈ b.spends, m ∈ sentBy s' := by
  have hmem : m ∈ b.received := Multiset.mem_coe.2 (List.mem_flatMap.2 ⟨s, hs, hm⟩)
  rw [← h.messages] at hmem
  exact List.mem_flatMap.1 (Multiset.mem_coe.1 hmem)

theorem filterMap_flatMap {α : Type*} (f : Message → Option α) (g : Spend → List Message)
    (ss : List Spend) : Multiset.filterMap f (ss.flatMap g : List Message)
      = (ss.map fun s => ((g s).filterMap f : Multiset α)).sum := by
  induction ss with
  | nil => rfl
  | cons s ss ih =>
      rw [List.flatMap_cons, ← Multiset.coe_add, Multiset.filterMap_add, ih, List.map_cons,
        List.sum_cons, Multiset.filterMap_coe]

/-- **The messages of a kind that are sent are those that are received.**  `f` picks the
kind, and says what counts of a message. -/
theorem Block.Valid.channel_eq {α : Type*} (f : Message → Option α) (h : b.Valid M l l') :
    (b.spends.map fun s => ((sentBy s).filterMap f : Multiset α)).sum
      = (b.spends.map fun s => ((receivedBy s).filterMap f : Multiset α)).sum := by
  rw [← filterMap_flatMap, ← filterMap_flatMap]
  exact congrArg (Multiset.filterMap f) h.messages

theorem Follows.wellFormed (hH : M.hash.CollisionFree) {blocks : List Block}
    (h : Follows M l blocks l') (hl : l.WellFormed (ChildOf M.hash) (Orphan M.hash)) :
    l'.WellFormed (ChildOf M.hash) (Orphan M.hash) := by
  induction h with
  | start => exact hl
  | next _ hb ih => exact hb.wellFormed hH ih

end

end Consensus

end SlotMachine
