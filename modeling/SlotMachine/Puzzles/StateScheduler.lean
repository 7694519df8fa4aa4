import SlotMachine.Chain.Encoding
import SlotMachine.Clvm.Machine

/-!
# The state scheduler

`state_scheduler.rue`, the inner puzzle of the singleton that replaces the state of a
registry: it sends the message that was curried into it to a coin of the registry, and runs
another puzzle.

* `StateScheduler.main` — the puzzle; `main_eq_some` is what it returns.
-/

namespace SlotMachine.StateScheduler

/-- What is curried into the puzzle. -/
structure Curried where
  singletonModHash : Bytes
  receiverSingletonStructHash : Bytes
  message : Clvm
  innerPuzzle : Clvm

/-- The arguments in the order of the puzzle. -/
def Curried.toList (c : Curried) : List Clvm :=
  [.atom c.singletonModHash, .atom c.receiverSingletonStructHash, c.message, c.innerPuzzle]

/-- `main` of `state_scheduler.rue`. -/
def main (M : Machine) (c : Curried) (solution : Clvm) : Option Clvm := do
  let (otherSingletonInnerPuzzleHash, innerSolution) ← solution.uncons
  let receiver ← M.hash.curryTreeHash (.atom c.singletonModHash)
    [.atom c.receiverSingletonStructHash, otherSingletonInnerPuzzleHash]
  let conditions ← M.eval c.innerPuzzle innerSolution
  return .pair (Condition.sendMessage puzzlePuzzle c.message [.atom receiver]).toClvm conditions

/-- **What the puzzle returns**: the message, and then what the other puzzle returned. -/
theorem main_eq_some {M : Machine} {c : Curried} {solution out : Clvm} :
    main M c solution = some out ↔
      ∃ otherInner innerSolution receiver conditions, solution = .pair otherInner innerSolution ∧
        M.hash.curryTreeHash (.atom c.singletonModHash)
          [.atom c.receiverSingletonStructHash, otherInner] = some receiver ∧
        M.eval c.innerPuzzle innerSolution = some conditions ∧
        out = .pair (Condition.sendMessage puzzlePuzzle c.message [.atom receiver]).toClvm
          conditions := by
  constructor
  · intro h
    obtain ⟨⟨otherInner, innerSolution⟩, hsolution, h1⟩ := bind_elim h
    obtain ⟨receiver, hreceiver, h2⟩ := bind_elim h1
    obtain ⟨conditions, hconditions, h3⟩ := bind_elim h2
    exact ⟨otherInner, innerSolution, receiver, conditions, Clvm.uncons_eq_some.1 hsolution,
      hreceiver, hconditions, (Option.some.inj h3).symm⟩
  · rintro ⟨otherInner, innerSolution, receiver, conditions, rfl, hreceiver, hconditions, rfl⟩
    exact bind_intro (Clvm.uncons_pair _ _)
      (bind_intro hreceiver (bind_intro hconditions rfl))

end SlotMachine.StateScheduler
