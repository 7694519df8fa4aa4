import SlotMachine.Clvm.Value

/-!
# Conditions

What a puzzle returns: a list of conditions, of which the blockchain carries
out some (create a coin), and checks the others against the block.  The
operands of a condition are arbitrary CLVM values, as most of them are copied
from a solution; the chain reads them when it checks the condition.

* `Condition` — the conditions the puzzles of the repository emit.
* `Condition.Holds` — what the chain checks of a time lock or of a message that
  names a sender coin.  `Condition.not_before_and_after` is the one fact about
  time locks the registries rest on: no instant is both before and not before
  an expiration.
-/

namespace SlotMachine

/-! ## Message modes -/

/-- Sender and receiver are committed to by puzzle hash
(`SENDER_PUZZLE | RECEIVER_PUZZLE`). -/
def puzzlePuzzle : ℕ := 18

/-- The receiver is committed to by puzzle hash and amount
(`SENDER_PUZZLE | RECEIVER_PUZZLE | RECEIVER_AMOUNT`). -/
def puzzlePuzzleAmount : ℕ := 19

/-- The sender is committed to by coin id (`SENDER_COIN | RECEIVER_PUZZLE`). -/
def coinPuzzle : ℕ := 58

/-- A condition. -/
inductive Condition where
  | createCoin (puzzleHash amount : Clvm) (memos : List Clvm)
  | createPuzzleAnnouncement (message : Clvm)
  | assertPuzzleAnnouncement (id : Clvm)
  | assertConcurrentSpend (coinId : Clvm)
  | sendMessage (mode : ℕ) (message : Clvm) (receiver : List Clvm)
  | receiveMessage (mode : ℕ) (message : Clvm) (sender : List Clvm)
  | assertMyCoinId (coinId : Clvm)
  | assertMyParentId (parentId : Clvm)
  | assertMyAmount (amount : Clvm)
  | assertSecondsAbsolute (seconds : Clvm)
  | assertBeforeSecondsAbsolute (seconds : Clvm)
  | assertHeightRelative (height : Clvm)
  | assertHeightAbsolute (height : Clvm)
  | assertBeforeHeightAbsolute (height : Clvm)
  deriving DecidableEq, Repr

/-! ## Checking a condition against a block -/

/-- How the chain reads the operand of a time lock. -/
inductive Reading where
  | invalid
  | negative
  | tooLarge
  | value (n : ℕ)
  deriving DecidableEq, Repr

/-- Read an operand as an unsigned integer of `size` bytes.  A pair and a
redundant leading zero are invalid. -/
def readUint (size : ℕ) : Clvm → Reading
  | .pair _ _ => .invalid
  | .atom b =>
      if intFromBytes b < 0 then .negative
      else if intToBytes (intFromBytes b) ≠ b then .invalid
      else if (intFromBytes b).toNat < 256 ^ size then .value (intFromBytes b).toNat
      else .tooLarge

/-- `now` is at or after the operand. -/
def Reading.Reached (now : ℕ) : Reading → Prop
  | .invalid => False
  | .negative => True
  | .tooLarge => False
  | .value n => n ≤ now

/-- `now` is before the operand. -/
def Reading.Ahead (now : ℕ) : Reading → Prop
  | .invalid => False
  | .negative => False
  | .tooLarge => True
  | .value n => now < n

instance (now : ℕ) (r : Reading) : Decidable (r.Reached now) := by
  cases r <;> unfold Reading.Reached <;> infer_instance

instance (now : ℕ) (r : Reading) : Decidable (r.Ahead now) := by
  cases r <;> unfold Reading.Ahead <;> infer_instance

/-- What a condition is checked against: the height and the timestamp that
absolute time locks refer to, and the ids of the coins spent in the block,
apart from the registry's own and its slots. -/
structure BlockInfo where
  height : ℕ
  timestamp : ℕ
  spentCoins : List Bytes

namespace Condition

/-- The chain's check of a time lock, and of a message from a coin, which that
coin has to be spent for.  Every other condition is matched elsewhere. -/
def Holds (b : BlockInfo) : Condition → Prop
  | assertSecondsAbsolute s => (readUint 8 s).Reached b.timestamp
  | assertBeforeSecondsAbsolute s => (readUint 8 s).Ahead b.timestamp
  | assertHeightAbsolute h => (readUint 4 h).Reached b.height
  | assertBeforeHeightAbsolute h => (readUint 4 h).Ahead b.height
  | receiveMessage mode _ sender =>
      mode = coinPuzzle → ∃ id ∈ b.spentCoins, sender = [.atom id]
  | _ => True

/-- The puzzle hash of the slot a message consumes: slots receive nil by puzzle
hash alone. -/
def slotSpend? : Condition → Option Bytes
  | sendMessage 18 (.atom []) [.atom puzzleHash] => some puzzleHash
  | _ => none

/-- The puzzle hash of a created coin of amount zero.  Every slot is one. -/
def zeroCoin? : Condition → Option Bytes
  | createCoin (.atom puzzleHash) (.atom []) _ => some puzzleHash
  | _ => none

end Condition

/-- The slots a list of conditions consumes, by puzzle hash. -/
def slotSpends (cs : List Condition) : Multiset Bytes := cs.filterMap Condition.slotSpend?

/-- The coins of amount zero a list of conditions creates, by puzzle hash. -/
def zeroCoins (cs : List Condition) : Multiset Bytes := cs.filterMap Condition.zeroCoin?

@[simp] theorem slotSpends_append (cs ds : List Condition) :
    slotSpends (cs ++ ds) = slotSpends cs + slotSpends ds := by
  simp [slotSpends, List.filterMap_append]

@[simp] theorem zeroCoins_append (cs ds : List Condition) :
    zeroCoins (cs ++ ds) = zeroCoins cs + zeroCoins ds := by
  simp [zeroCoins, List.filterMap_append]

/-! ## Time locks -/

theorem Reading.not_ahead_of_reached {now : ℕ} {r : Reading} (h : r.Reached now) :
    ¬ r.Ahead now := by
  cases r with
  | invalid => exact h.elim
  | negative => exact id
  | tooLarge => exact h.elim
  | value n => exact Nat.not_lt.2 h

/-- An integer is read as what it is. -/
theorem readUint_ofInt (size : ℕ) (e : ℤ) :
    readUint size (.ofInt e) = if e < 0 then .negative
      else if e.toNat < 256 ^ size then .value e.toNat else .tooLarge := by
  unfold Clvm.ofInt readUint
  simp [intFromBytes_intToBytes]

/-- A number that is not too large is read as what it is. -/
theorem readUint_natCast {size n : ℕ} (hn : n < 256 ^ size) :
    readUint size (.ofInt n) = .value n := by
  rw [readUint_ofInt, if_neg (by omega), Int.toNat_natCast, if_pos hn]

theorem Condition.holds_assertSecondsAbsolute {b : BlockInfo} {n : ℕ} (hn : n < 256 ^ 8) :
    (assertSecondsAbsolute (.ofInt n)).Holds b ↔ n ≤ b.timestamp := by
  rw [Holds, readUint_natCast hn, Reading.Reached]

theorem Condition.holds_assertBeforeSecondsAbsolute {b : BlockInfo} {n : ℕ} (hn : n < 256 ^ 8) :
    (assertBeforeSecondsAbsolute (.ofInt n)).Holds b ↔ b.timestamp < n := by
  rw [Holds, readUint_natCast hn, Reading.Ahead]

theorem Condition.holds_assertHeightAbsolute {b : BlockInfo} {n : ℕ} (hn : n < 256 ^ 4) :
    (assertHeightAbsolute (.ofInt n)).Holds b ↔ n ≤ b.height := by
  rw [Holds, readUint_natCast hn, Reading.Reached]

theorem Condition.holds_assertBeforeHeightAbsolute {b : BlockInfo} {n : ℕ} (hn : n < 256 ^ 4) :
    (assertBeforeHeightAbsolute (.ofInt n)).Holds b ↔ b.height < n := by
  rw [Holds, readUint_natCast hn, Reading.Ahead]

/-- Every block is before an integer instant or not before it. -/
theorem Condition.after_of_not_before {b : BlockInfo} {e : ℤ}
    (h : ¬ (assertBeforeSecondsAbsolute (.ofInt e)).Holds b) :
    (assertSecondsAbsolute (.ofInt e)).Holds b := by
  show (readUint 8 (.ofInt e)).Reached b.timestamp
  have hnot : ¬ (readUint 8 (.ofInt e)).Ahead b.timestamp := h
  rw [readUint_ofInt] at hnot ⊢
  by_cases hneg : e < 0
  · rw [if_pos hneg]
    trivial
  by_cases hsmall : e.toNat < 256 ^ 8
  · rw [if_neg hneg, if_pos hsmall] at hnot ⊢
    exact not_lt.1 hnot
  · rw [if_neg hneg, if_neg hsmall] at hnot
    exact absurd trivial hnot

/-- No block is both before an instant and not before it. -/
theorem Condition.not_before_and_after {b : BlockInfo} {s : Clvm}
    (h : (assertSecondsAbsolute s).Holds b) : ¬ (assertBeforeSecondsAbsolute s).Holds b :=
  Reading.not_ahead_of_reached h

/-- A lower bound that was checked bounds the integer the operand stands for,
which is also in the range of the chain's clock. -/
theorem Reading.le_of_reached {size now : ℕ} {v : Clvm} (h : (readUint size v).Reached now) :
    ∃ b, v = .atom b ∧ intFromBytes b ≤ now ∧ intFromBytes b < (256 : ℤ) ^ size := by
  cases v with
  | pair _ _ => exact h.elim
  | atom b =>
      refine ⟨b, rfl, ?_⟩
      have hpos : (0 : ℤ) < 256 ^ size := by positivity
      rw [readUint] at h
      split at h
      · exact ⟨by omega, by omega⟩
      split at h
      · exact h.elim
      split at h
      · rename_i h0 _ hsmall
        have hle : (intFromBytes b).toNat ≤ now := h
        have hcast : ((intFromBytes b).toNat : ℤ) < ((256 ^ size : ℕ) : ℤ) := by exact_mod_cast hsmall
        push_cast at hcast
        rw [Int.toNat_of_nonneg (not_lt.1 h0)] at hcast
        exact ⟨by omega, hcast⟩
      · exact h.elim

/-- An upper bound that was checked either bounds the integer the operand stands
for, or is out of the range of the chain's clock. -/
theorem Reading.lt_of_ahead {size now : ℕ} {v : Clvm} (h : (readUint size v).Ahead now) :
    ∃ b, v = .atom b ∧ (now < intFromBytes b ∨ (256 : ℤ) ^ size ≤ intFromBytes b) := by
  cases v with
  | pair _ _ => exact h.elim
  | atom b =>
      refine ⟨b, rfl, ?_⟩
      rw [readUint] at h
      split at h
      · exact h.elim
      split at h
      · exact h.elim
      split at h
      · have hlt : now < (intFromBytes b).toNat := h
        exact Or.inl (by omega)
      · rename_i h0 _ hlarge
        refine Or.inr ?_
        have hle : 256 ^ size ≤ (intFromBytes b).toNat := not_lt.1 hlarge
        have hcast : ((256 ^ size : ℕ) : ℤ) ≤ ((intFromBytes b).toNat : ℤ) := by exact_mod_cast hle
        push_cast at hcast
        rwa [Int.toNat_of_nonneg (not_lt.1 h0)] at hcast

end SlotMachine
