import SlotMachine.Clvm.Curry
import SlotMachine.Singleton.Action
import SlotMachine.Singleton.Finalizer

/-!
# The finalizer conserves all conditions

The default finalizer, curried with the hashes of an action layer and of itself, on what
a run of actions hands on to it.

* `Programs` — the programs whose hashes are curried in, and `Programs.layer`, the inner
  puzzle with some root and state.
* `main_eq` — **the finalizer creates the layer anew and returns every condition**, if there is
  a list of conditions at all.
* `finalizer_conserves` — the same of a run of actions; `finalizer_raises` — of no list.
-/

namespace SlotMachine

namespace Finalizer

open Clvm

/-- The programs whose hashes are curried into the finalizer: the action layer, and the
finalizer with its first two arguments. -/
structure Programs where
  actionLayerMod : Clvm
  finalizer1stCurry : Clvm
  hint : Clvm

namespace Programs

variable (P : Programs)

/-- What is curried into the finalizer. -/
def curried : Curried where
  actionLayerModHash := treeHash256 P.actionLayerMod
  hint := P.hint
  selfHash := treeHash256 P.finalizer1stCurry

/-- The finalizer, which knows its own hash. -/
def finalizer : Clvm := curry P.finalizer1stCurry [.atom (treeHash256 P.finalizer1stCurry)]

/-- The action layer with this finalizer, a root and a state. -/
def layer (merkleRoot : Bytes) (state : Clvm) : Clvm :=
  curry P.actionLayerMod [P.finalizer, .atom merkleRoot, state]

/-- `(CREATE_COIN layer 1 (HINT))`. -/
def recreation (merkleRoot : Bytes) (state : Clvm) : Clvm :=
  .ofList [.atom [51], .atom (treeHash256 (P.layer merkleRoot state)), .atom [1],
    .ofList [P.hint]]

theorem puzzleHash_curried :
    puzzleHash .sha256 P.curried = some (treeHash256 P.finalizer) :=
  bind_intro (treeHashAtom_sha256 _)
    (curryTreeHash_treeHash256 P.finalizer1stCurry [.atom (treeHash256 P.finalizer1stCurry)])

theorem layerPuzzleHash_curried (merkleRoot : Bytes) (state : Clvm) :
    layerPuzzleHash .sha256 P.curried.actionLayerModHash (treeHash256 P.finalizer)
      (.atom merkleRoot) state = some (treeHash256 (P.layer merkleRoot state)) :=
  bind_intro (treeHashAtom_sha256 _) (bind_intro (treeHash_sha256 _)
    (curryTreeHash_treeHash256 P.actionLayerMod [P.finalizer, .atom merkleRoot, state]))

end Programs

/-- The input of the finalizer: the truths, and the state and the lists of conditions that
the actions have left. -/
def input (merkleRoot : Bytes) (initialState truth lists mySolution : Clvm) : Clvm :=
  .pair (.pair (.atom merkleRoot) initialState) (.pair (.pair truth lists) mySolution)

/-- **The layer is created anew, and every condition is returned.** -/
theorem main_eq (P : Programs) (merkleRoot : Bytes) (initialState ephemeral state mySolution : Clvm)
    (xs : List Clvm) (xss : List (List Clvm)) :
    main .sha256 P.curried (input merkleRoot initialState (.pair ephemeral state)
        (.ofList ((xs :: xss).map .ofList)) mySolution)
      = some (.ofList (P.recreation merkleRoot state :: (xs :: xss).flatten)) :=
  main_eq_some.2 ⟨_, _, P.puzzleHash_curried, P.layerPuzzleHash_curried merkleRoot state, rfl⟩

/-- The lists that a run of actions hands on: those of the actions, the last one first, and
the empty one that it began with. -/
theorem main_run (P : Programs) (merkleRoot : Bytes) (initialState ephemeral state mySolution : Clvm)
    (lists : List (List Clvm)) :
    main .sha256 P.curried (input merkleRoot initialState (.pair ephemeral state)
        (.ofList ((lists.map Clvm.ofList).reverse ++ [.nil])) mySolution)
      = some (.ofList (P.recreation merkleRoot state :: lists.reverse.flatten)) := by
  have hlists : (lists.map Clvm.ofList).reverse ++ [.nil]
      = (lists.reverse ++ [[]]).map Clvm.ofList := by
    rw [List.map_append, List.map_reverse]
    rfl
  obtain ⟨xs, xss, hcons⟩ : ∃ xs xss, lists.reverse ++ [[]] = xs :: xss :=
    List.exists_cons_of_ne_nil (by simp)
  have hflatten : (xs :: xss).flatten = lists.reverse.flatten := by
    rw [← hcons, List.flatten_append]
    simp
  rw [hlists, hcons, main_eq, hflatten]

/-- The finalizer returns one recreation of the layer and every condition, of any lists of
conditions but none at all; and none is never what a run of actions hands on. -/
theorem finalizer_conserves (P : Programs) (merkleRoot : Bytes) (initialState mySolution : Clvm) :
    (∀ (ephemeral state : Clvm) (xs : List Clvm) (xss : List (List Clvm)),
      main .sha256 P.curried (input merkleRoot initialState (.pair ephemeral state)
          (.ofList ((xs :: xss).map .ofList)) mySolution)
        = some (.ofList (P.recreation merkleRoot state :: (xs :: xss).flatten))) ∧
    ∀ (M : Machine) (puzzles solutions output : Clvm) (selectors : List Clvm),
      ActionLayer.runActions M puzzles .nil (.pair (.pair .nil initialState) .nil) selectors
          solutions = some output →
        ∃ programs lists last,
          ActionLayer.Executes M (.pair .nil initialState) programs solutions lists last ∧
          output = .pair last (.ofList (lists.reverse ++ [.nil])) ∧
          ∀ (conditions : List (List Clvm)) (ephemeral state : Clvm),
            lists = conditions.map .ofList → last = .pair ephemeral state →
              main .sha256 P.curried
                  (.pair (.pair (.atom merkleRoot) initialState) (.pair output mySolution))
                = some (.ofList (P.recreation merkleRoot state :: conditions.reverse.flatten)) := by
  refine ⟨fun ephemeral state xs xss => main_eq P merkleRoot initialState ephemeral state
    mySolution xs xss, ?_⟩
  intro M puzzles solutions output selectors hrun
  obtain ⟨programs, lists, last, -, hexecutes, hout⟩ :=
    @ActionLayer.exists_executes M puzzles _ _ _ _ [] selectors hrun
  refine ⟨programs, lists, last, hexecutes, hout, ?_⟩
  rintro conditions ephemeral state rfl rfl
  rw [hout]
  exact main_run P merkleRoot initialState ephemeral state mySolution conditions

/-- Without any list of conditions the finalizer raises. -/
theorem finalizer_raises :
    main .sha256 (Programs.curried ⟨.atom [2], .atom [3], .nil⟩)
      (input [] .nil (.pair .nil .nil) (.ofList []) .nil) = none := by
  decide +kernel

end Finalizer

end SlotMachine
