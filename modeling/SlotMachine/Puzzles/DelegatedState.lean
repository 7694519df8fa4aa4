import SlotMachine.Puzzles.Slot

/-!
# `delegated_state`

The action both registries share: another singleton replaces the state, by
sending the registry a message with the hash of the new one.

* `delegatedState` — the action; `delegatedState_eq_some` says what it does.
-/

namespace SlotMachine

/-- `delegated_state.rue`. -/
def delegatedState (M : Machine) (singletonModHash otherSingletonStructHash : Bytes)
    (truth solution : Clvm) : Option (Clvm × List Condition) := do
  let (ephemeralState, _) ← truth.uncons
  let (newState, otherSingletonInnerPuzzleHash) ← solution.uncons
  let stateHash ← M.hash.treeHash newState
  let sender ← M.hash.curryTreeHash (.atom singletonModHash)
    [.atom otherSingletonStructHash, otherSingletonInnerPuzzleHash]
  return (.pair ephemeralState newState,
    [.receiveMessage puzzlePuzzle (.tagged 's' stateHash) [.atom sender]])

/-- The new state comes with a message from the other singleton, and no slot is
touched. -/
theorem delegatedState_eq_some {M : Machine} {m other : Bytes} {truth solution : Clvm}
    {out : Clvm × List Condition} :
    delegatedState M m other truth solution = some out ↔
      ∃ e s newState inner stateHash sender, truth = .pair e s ∧ solution = .pair newState inner ∧
        M.hash.treeHash newState = some stateHash ∧
        M.hash.curryTreeHash (.atom m) [.atom other, inner] = some sender ∧
        out = (.pair e newState,
          [.receiveMessage puzzlePuzzle (.tagged 's' stateHash) [.atom sender]]) := by
  constructor
  · intro h
    obtain ⟨⟨e, s⟩, ht, h1⟩ := bind_elim h
    obtain ⟨⟨newState, inner⟩, hs, h2⟩ := bind_elim h1
    obtain ⟨d, hd, h3⟩ := bind_elim h2
    obtain ⟨sender, hsender, h4⟩ := bind_elim h3
    exact ⟨e, s, newState, inner, d, sender, Clvm.uncons_eq_some.1 ht, Clvm.uncons_eq_some.1 hs, hd,
      hsender, (Option.some.inj h4).symm⟩
  · rintro ⟨e, s, newState, inner, d, sender, rfl, rfl, hd, hsender, rfl⟩
    exact bind_intro (Clvm.uncons_pair e s) (bind_intro (Clvm.uncons_pair newState inner)
      (bind_intro hd (bind_intro hsender rfl)))

end SlotMachine
