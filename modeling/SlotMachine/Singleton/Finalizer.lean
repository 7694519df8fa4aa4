import SlotMachine.Chain.Encoding
import SlotMachine.Clvm.Transcript

/-!
# The default finalizer

`finalizer.rue`: the puzzle the action layer hands its results to.  It creates
the next coin of the singleton and returns the conditions of all actions.

* `Finalizer.main` — the puzzle, with `flattenList` for its recursion and
  `flattenList_pair_pair` for the step of it.
* `flattenList_ofList` — **proper lists of conditions are put one after the
  other**.
* `main_eq_some` — what the puzzle returns.
-/

namespace SlotMachine

namespace Finalizer

/-- What is curried into the puzzle, in two steps: `selfHash` is the hash of the
puzzle with the first two. -/
structure Curried where
  actionLayerModHash : Bytes
  hint : Clvm
  selfHash : Bytes

/-- The elements of one list, in front of what the other lists are flattened to. -/
def flattenFirst (others : Option Clvm) : Clvm → Option Clvm
  | .atom [] => others
  | .atom (_ :: _) => none
  | .pair x xs => do
      let flat ← flattenFirst others xs
      return .pair x flat

/-- `flatten_list`: after an empty list the rest follows, if it is not nil. -/
def flattenList : Clvm → Option Clvm
  | .atom _ => none
  | .pair firstThing theRest =>
      flattenFirst (if theRest.truthy then flattenList theRest else some .nil) firstThing

variable (H : HashOracle)

/-- The puzzle hash of the finalizer itself. -/
def puzzleHash (c : Curried) : Option Bytes := do
  let selfHashHash ← H.treeHashAtom (.atom c.selfHash)
  H.curryTreeHash (.atom c.selfHash) [.atom selfHashHash]

/-- The puzzle hash of the action layer with a finalizer, a root and a state, by
the hash of the finalizer. -/
def layerPuzzleHash (actionLayerModHash finalizerHash : Bytes) (merkleRoot state : Clvm) :
    Option Bytes := do
  let rootHash ← H.treeHashAtom merkleRoot
  let stateHash ← H.treeHash state
  H.curryTreeHash (.atom actionLayerModHash)
    [.atom finalizerHash, .atom rootHash, .atom stateHash]

/-- `recreation_condition`: a coin of amount one, with a hint. -/
def recreation (c : Curried) (innerPuzzleHash : Bytes) : Clvm :=
  .ofList [.atom [51], .atom innerPuzzleHash, .atom [1], .ofList [c.hint]]

/-- `main` of `finalizer.rue`, on `(Truth last_action_output . my_solution)`. -/
def main (c : Curried) (solution : Clvm) : Option Clvm := do
  let (truth, outputAndSolution) ← solution.uncons
  let (lastActionOutput, _) ← outputAndSolution.uncons
  let merkleRoot ← truth.first
  let (stateTruth, lists) ← lastActionOutput.uncons
  let actualState ← stateTruth.rest
  let finalizerHash ← puzzleHash H c
  let innerPuzzleHash ← layerPuzzleHash H c.actionLayerModHash finalizerHash merkleRoot actualState
  let conditions ← flattenList lists
  return .pair (recreation c innerPuzzleHash) conditions

/-- The step of the source's recursion: the first element of the first list goes
in front of the flattened rest. -/
theorem flattenList_pair_pair (x xs rest : Clvm) :
    flattenList (.pair (.pair x xs) rest) = (flattenList (.pair xs rest)).map (.pair x) := by
  simp only [flattenList, flattenFirst]
  cases flattenFirst (if rest.truthy then flattenList rest else some .nil) xs <;> rfl

theorem flattenFirst_ofList (xs ys : List Clvm) :
    flattenFirst (some (.ofList ys)) (.ofList xs) = some (.ofList (xs ++ ys)) := by
  induction xs with
  | nil => rfl
  | cons x xs ih => exact bind_intro ih rfl

/-- **Proper lists are put one after the other**, if there is one at all. -/
theorem flattenList_ofList (xs : List Clvm) (xss : List (List Clvm)) :
    flattenList (.ofList ((xs :: xss).map .ofList)) = some (.ofList (xs :: xss).flatten) := by
  induction xss generalizing xs with
  | nil => exact flattenFirst_ofList xs []
  | cons ys xss ih =>
      rw [List.flatten_cons, ← flattenFirst_ofList, ← ih ys]
      rfl

variable {H}

/-- **What the puzzle returns**: the recreation of the layer with the new state,
and then all conditions. -/
theorem main_eq_some {c : Curried} {root state ephemeral newState mySolution out : Clvm}
    {xs : List Clvm} {xss : List (List Clvm)} :
    main H c (.pair (.pair root state) (.pair
        (.pair (.pair ephemeral newState) (.ofList ((xs :: xss).map .ofList))) mySolution))
      = some out ↔
      ∃ finalizerHash inner, puzzleHash H c = some finalizerHash ∧
        layerPuzzleHash H c.actionLayerModHash finalizerHash root newState = some inner ∧
        out = .ofList (recreation c inner :: (xs :: xss).flatten) := by
  constructor
  · intro h
    obtain ⟨_, hsolution, h1⟩ := bind_elim h
    cases hsolution
    obtain ⟨_, houtput, h2⟩ := bind_elim h1
    cases houtput
    obtain ⟨_, hroot, h3⟩ := bind_elim h2
    cases hroot
    obtain ⟨_, htruth, h4⟩ := bind_elim h3
    cases htruth
    obtain ⟨_, hstate, h5⟩ := bind_elim h4
    cases hstate
    obtain ⟨finalizerHash, hfinalizer, h6⟩ := bind_elim h5
    obtain ⟨inner, hinner, h7⟩ := bind_elim h6
    obtain ⟨conditions, hconditions, h8⟩ := bind_elim h7
    rw [flattenList_ofList] at hconditions
    cases hconditions
    exact ⟨finalizerHash, inner, hfinalizer, hinner, (Option.some.inj h8).symm⟩
  · rintro ⟨finalizerHash, inner, hfinalizer, hinner, rfl⟩
    exact bind_intro rfl (bind_intro rfl (bind_intro rfl (bind_intro rfl (bind_intro rfl
      (bind_intro hfinalizer (bind_intro hinner (bind_intro (flattenList_ofList xs xss) rfl)))))))

/-- A table for the finalizer's own hash. -/
theorem puzzleHash_ofSkeletons {ts : List Skeleton} {c : Curried} (hself : .atom c.selfHash ∈ ts)
    (hcurry : .curry c.selfHash [(Skeleton.atom c.selfHash).hash] ∈ ts) :
    puzzleHash (.ofSkeletons ts) c
      = some (Skeleton.curry c.selfHash [(Skeleton.atom c.selfHash).hash]).hash :=
  bind_intro (HashOracle.treeHashAtom_ofSkeletons hself) (HashOracle.curryTreeHash_ofSkeletons hcurry)

/-- A table for a layer. -/
theorem layerPuzzleHash_ofSkeletons {ts : List Skeleton} {m f root : Bytes} {state : Clvm}
    (hroot : .atom root ∈ ts) (hstate : .ofClvm state ∈ ts)
    (hcurry : .curry m [f, (Skeleton.atom root).hash, (Skeleton.ofClvm state).hash] ∈ ts) :
    layerPuzzleHash (.ofSkeletons ts) m f (.atom root) state
      = some (Skeleton.curry m [f, (Skeleton.atom root).hash, (Skeleton.ofClvm state).hash]).hash :=
  bind_intro (HashOracle.treeHashAtom_ofSkeletons hroot)
    (bind_intro (HashOracle.treeHash_ofSkeletons hstate)
      (HashOracle.curryTreeHash_ofSkeletons hcurry))

/-- The puzzle hash of a layer determines its root and its state. -/
theorem layerPuzzleHash_inj (hH : H.CollisionFree) {m f m' f' : Bytes} {root root' state state' : Clvm}
    {d : Bytes} (h : layerPuzzleHash H m f root state = some d)
    (h' : layerPuzzleHash H m' f' root' state' = some d) :
    m = m' ∧ f = f' ∧ root = root' ∧ state = state' := by
  obtain ⟨r, hr, h1⟩ := bind_elim h
  obtain ⟨s, hs, hcurry⟩ := bind_elim h1
  obtain ⟨r', hr', h1'⟩ := bind_elim h'
  obtain ⟨s', hs', hcurry'⟩ := bind_elim h1'
  obtain ⟨hm, hparams⟩ := HashOracle.curryTreeHash_inj hH hcurry hcurry'
  simp only [List.cons.injEq, Clvm.atom.injEq, and_true] at hm hparams
  obtain ⟨rfl, rfl, rfl⟩ := hparams
  exact ⟨hm, rfl, HashOracle.treeHashAtom_inj hH hr hr', HashOracle.treeHash_inj hH hs hs'⟩

end Finalizer

end SlotMachine
