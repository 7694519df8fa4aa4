import SlotMachine.Puzzles.CatMaker
import SlotMachine.Puzzles.Slot

/-!
# Precommit coins

Somebody who wants to register a name first locks the price in a precommit
coin, which commits to the name.  The registry later sends the coin a message:
one if it was used, nil if it is refunded (`precommit.rue`).

* `PrecommitCoin`, `PrecommitCoin.send` — a coin as messages name it, and the
  message of an action to it.
* `precommitMain` — the puzzle of the coin; `precommitMain_destination` says
  where the money goes for either message.
-/

namespace SlotMachine

/-- A precommit coin, by puzzle hash and amount. -/
structure PrecommitCoin where
  puzzleHash : Bytes
  amount : Bytes
  deriving DecidableEq, Repr

/-- The mode of a spend that pays out: the coin was used. -/
def payOut : Clvm := .atom [1]

/-- The mode of a spend that refunds. -/
def refunded : Clvm := .nil

/-- The message of a registry to a precommit coin. -/
def PrecommitCoin.send (coin : PrecommitCoin) (mode : Clvm) : Condition :=
  .sendMessage puzzlePuzzleAmount mode [.atom coin.puzzleHash, .atom coin.amount]

theorem PrecommitCoin.send_eq {coin : PrecommitCoin} {mode mode' : Clvm} {ph : Bytes}
    {amount : Clvm} :
    coin.send mode = .sendMessage puzzlePuzzleAmount mode' [.atom ph, amount] ↔
      mode = mode' ∧ coin.puzzleHash = ph ∧ .atom coin.amount = amount := by
  simp [PrecommitCoin.send]

/-- `precommit.rue`, with the arguments of both currying steps; the value is
there to be committed to only. -/
def precommitMain (H : HashOracle) (singletonModHash singletonStructHash : Bytes)
    (relativeBlockHeight : ℤ) (payoutPuzzleHash refundPuzzleHash : Bytes) :
    Clvm → Option (List Condition)
  | .pair spendMode (.pair myAmount singletonInnerPuzzleHash) => do
      let destination := if spendMode.truthy then payoutPuzzleHash else refundPuzzleHash
      let sender ← H.curryTreeHash (.atom singletonModHash)
        [.atom singletonStructHash, singletonInnerPuzzleHash]
      return [.assertHeightRelative (.ofInt relativeBlockHeight),
        .assertMyAmount myAmount,
        .createCoin (.atom destination) myAmount [.atom destination],
        .receiveMessage puzzlePuzzleAmount spendMode [.atom sender]]
  | _ => none

/-- **The message decides where the money goes.**  A precommit coin that
receives a message from the registry pays all of its amount out if the message
is not nil, and back to the refund puzzle if it is. -/
theorem precommitMain_destination {H : HashOracle} {m struct payout refund : Bytes} {height : ℤ}
    {solution mode sender amount : Clvm} {cs : List Condition}
    (h : precommitMain H m struct height payout refund solution = some cs)
    (hmode : .receiveMessage puzzlePuzzleAmount mode [sender] ∈ cs)
    (hamount : .assertMyAmount amount ∈ cs) :
    (mode = refunded ∧ .createCoin (.atom refund) amount [.atom refund] ∈ cs) ∨
      (mode ≠ refunded ∧ .createCoin (.atom payout) amount [.atom payout] ∈ cs) := by
  match solution, h with
  | .pair spendMode (.pair myAmount inner), h =>
      obtain ⟨spender, -, h1⟩ := bind_elim h
      obtain rfl := Option.some.inj h1
      obtain ⟨rfl, -⟩ : mode = spendMode ∧ sender = .atom spender := by simpa using hmode
      obtain rfl : amount = myAmount := by simpa using hamount
      by_cases hnil : mode = .nil
      · exact Or.inl ⟨hnil, by simp [hnil, Clvm.truthy]⟩
      · exact Or.inr ⟨hnil, by simp [hnil, Clvm.truthy]⟩

end SlotMachine
