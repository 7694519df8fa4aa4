import SlotMachine.Chain.TopLayer
import SlotMachine.Rue.Coins

/-!
# The CAT layer

The puzzle that makes a coin a CAT.  It runs the inner puzzle, and wraps whatever coins this
creates into the layer again; a coin of the amount −113 asks for the program of the TAIL
instead.  The compiled puzzle is not part of the repository: `Computes` says what is known
of it.

* `morph`, `CatLayerRun`, `Computes` — what the layer does.
* `puzzleHash` — the puzzle hash of a CAT, which the default CAT maker computes.
* `exists_run` — **a CAT is spent by running its inner puzzle**.
* `CatLayerRun.received_eq`, `CatLayerRun.created_eq` — the layer passes messages on, and
  wraps the coins.
-/

namespace SlotMachine

/-- The condition asks for the TAIL. -/
def Condition.Melts : Condition → Prop
  | createCoin _ amount _ => amount = Lineage.meltAmount
  | _ => False

namespace Lineage

open Consensus

/-- The compiled layer. -/
structure CatLayer where
  program : Clvm
  modHash : Bytes

namespace CatLayer

variable (T : CatLayer)

/-- A puzzle with the layer. -/
def puzzle (tailHash innerPuzzle : Clvm) : Clvm :=
  Clvm.curry T.program [.atom T.modHash, tailHash, innerPuzzle]

/-- The puzzle hash of a CAT. -/
def puzzleHash (H : HashOracle) (tailHashHash innerPuzzleHash : Clvm) : Option Bytes := do
  let mod ← H.treeHashAtom (.atom T.modHash)
  H.curryTreeHash (.atom T.modHash) [.atom mod, tailHashHash, innerPuzzleHash]

/-- What becomes of a condition of the inner puzzle: coins get the layer. -/
def morph (H : HashOracle) (tailHashHash : Clvm) : Condition → Option Condition
  | .createCoin puzzleHash amount memos =>
      if amount = meltAmount then none
      else (T.puzzleHash H tailHashHash puzzleHash).map fun d => .createCoin (.atom d) amount memos
  | c => some c

/-- What a spend with this layer has done when it returned `out`. -/
structure CatLayerRun (M : Machine) (tailHash innerPuzzle out : Clvm) where
  innerSolution : Clvm
  innerOut : Clvm
  tailHashHash : Bytes
  /-- What the layer asserts itself, and the conditions of the TAIL. -/
  own : List Condition
  inner_eq : M.eval innerPuzzle innerSolution = some innerOut
  tail_eq : M.hash.treeHash tailHash = some tailHashHash
  conditions_perm : (conditionsOf out).Perm
    (own ++ (conditionsOf innerOut).filterMap (T.morph M.hash (.atom tailHashHash)))
  /-- The TAIL is not run unless the inner puzzle asks for it. -/
  silent : (∀ c ∈ conditionsOf innerOut, ¬ c.Melts) →
    ∀ c ∈ own, ∃ id, c = .assertMyCoinId id
  /-- The layer was hashed for every coin. -/
  wraps : ∀ ph amount memos, .createCoin ph amount memos ∈ conditionsOf innerOut →
    amount ≠ meltAmount → ∃ d, T.puzzleHash M.hash (.atom tailHashHash) ph = some d

/-- What is known of the compiled layer. -/
structure Computes (M : Machine) : Prop where
  treeHash_program : M.hash.treeHash T.program = some T.modHash
  run : ∀ {tailHash innerPuzzle solution out : Clvm},
    M.eval (T.puzzle tailHash innerPuzzle) solution = some out →
    Nonempty (T.CatLayerRun M tailHash innerPuzzle out)

variable {T} {M : Machine}

/-- The default CAT maker computes the puzzle hash of a CAT. -/
theorem defaultCatMaker_eq (T : CatLayer) (H : HashOracle) (tailHashHash innerPuzzleHash : Clvm)
    (rest : Clvm) :
    Rue.defaultCatMaker H (.atom T.modHash) tailHashHash (.pair innerPuzzleHash rest)
      = T.puzzleHash H tailHashHash innerPuzzleHash := rfl

theorem puzzleHash_eq_some {H : HashOracle} {tailHashHash innerPuzzleHash : Clvm} {d : Bytes} :
    T.puzzleHash H tailHashHash innerPuzzleHash = some d ↔
      ∃ mod, H.treeHashAtom (.atom T.modHash) = some mod ∧
        H.curryTreeHash (.atom T.modHash) [.atom mod, tailHashHash, innerPuzzleHash] = some d := by
  simp only [puzzleHash, Option.bind_eq_bind, Option.bind_eq_some_iff]

/-- The puzzle hash of a CAT says which TAIL it has, and which inner puzzle. -/
theorem puzzleHash_inj {H : HashOracle} (hH : H.CollisionFree) {t t' i i' : Clvm} {d : Bytes}
    (h : T.puzzleHash H t i = some d) (h' : T.puzzleHash H t' i' = some d) : t = t' ∧ i = i' := by
  obtain ⟨mod, -, hcurry⟩ := puzzleHash_eq_some.1 h
  obtain ⟨mod', -, hcurry'⟩ := puzzleHash_eq_some.1 h'
  obtain ⟨-, harguments⟩ := HashOracle.curryTreeHash_inj hH hcurry hcurry'
  simp only [List.cons.injEq, and_true] at harguments
  exact harguments.2

/-- **A CAT is spent by running its inner puzzle.** -/
theorem exists_run (hH : M.hash.CollisionFree) (hT : T.Computes M) {s : Spend} (hs : s.Readable M)
    {tailHashHash inner : Bytes}
    (h : T.puzzleHash M.hash (.atom tailHashHash) (.atom inner) = some s.coin.puzzleHash) :
    ∃ tailHash innerPuzzle out, M.hash.treeHash innerPuzzle = some inner ∧
      s.conditions = conditionsOf out ∧
      ∃ r : T.CatLayerRun M tailHash innerPuzzle out, r.tailHashHash = tailHashHash := by
  obtain ⟨mod, hmod, hcurry⟩ := puzzleHash_eq_some.1 h
  obtain ⟨program, arguments, modHash, hreveal, hsame, hprogram, harguments⟩ :=
    HashOracle.exists_curry_of_treeHash hH hs.reveal hcurry
  rw [← Clvm.atom.inj hsame] at hprogram
  obtain rfl := HashOracle.treeHash_inj hH hprogram hT.treeHash_program
  cases harguments with
  | cons hfirst hrest =>
    obtain ⟨_, hsame', hfirst⟩ := hfirst
    rw [← Clvm.atom.inj hsame'] at hfirst
    obtain rfl := HashOracle.eq_atom_of_treeHash hH hfirst hmod
    cases hrest with
    | cons hsecond hrest =>
      obtain ⟨t, htail, hsecond⟩ := hsecond
      obtain rfl := Clvm.atom.inj htail
      cases hrest with
      | cons hthird hnil =>
        obtain ⟨i, hinner, hthird⟩ := hthird
        obtain rfl := Clvm.atom.inj hinner
        cases hnil
        obtain ⟨out, hout, hconditions⟩ := hs.runs
        rw [hreveal] at hout
        obtain ⟨r⟩ := hT.run hout
        exact ⟨_, _, out, hthird, hconditions, r, Option.some.inj (r.tail_eq.symm.trans hsecond)⟩

namespace CatLayerRun

variable {tailHash innerPuzzle out : Clvm}

/-- A condition of the inner puzzle that creates no coin is one of the spend. -/
theorem mem_conditions (r : T.CatLayerRun M tailHash innerPuzzle out) {c : Condition}
    (hc : c ∈ conditionsOf r.innerOut)
    (hmorph : T.morph M.hash (.atom r.tailHashHash) c = some c) : c ∈ conditionsOf out :=
  r.conditions_perm.mem_iff.2 (List.mem_append_right _ (List.mem_filterMap.2 ⟨c, hc, hmorph⟩))

/-- **Whatever is read from conditions that create no coins is read from those of the inner
puzzle**, if it does not ask for the TAIL. -/
theorem filterMap_conditions (r : T.CatLayerRun M tailHash innerPuzzle out)
    (hmelts : ∀ c ∈ conditionsOf r.innerOut, ¬ c.Melts) {α : Type*}
    (f : Condition → Option α)
    (hcreate : ∀ puzzleHash amount memos, f (.createCoin puzzleHash amount memos) = none)
    (hassert : ∀ id, f (.assertMyCoinId id) = none) :
    ((conditionsOf out).filterMap f).Perm ((conditionsOf r.innerOut).filterMap f) := by
  have hown : r.own.filterMap f = [] := by
    refine List.filterMap_eq_nil_iff.2 fun c hc => ?_
    obtain ⟨id, rfl⟩ := r.silent hmelts c hc
    exact hassert id
  have hmorph : ∀ c, ((T.morph M.hash (.atom r.tailHashHash) c).bind f) = f c := by
    intro c
    cases c with
    | createCoin puzzleHash amount memos =>
        rw [hcreate, morph]
        split
        · rfl
        · cases T.puzzleHash M.hash (.atom r.tailHashHash) puzzleHash with
          | none => rfl
          | some d => exact hcreate _ _ _
    | _ => rfl
  refine (r.conditions_perm.filterMap f).trans ?_
  rw [List.filterMap_append, hown, List.nil_append, List.filterMap_filterMap]
  simp only [hmorph, List.Perm.refl]

/-- **The coins of the spend are those of the inner puzzle**, each with the layer. -/
theorem created_eq (r : T.CatLayerRun M tailHash innerPuzzle out)
    (hmelts : ∀ c ∈ conditionsOf r.innerOut, ¬ c.Melts) {s : Spend}
    (hconditions : s.conditions = conditionsOf out) :
    s.created = (((conditionsOf r.innerOut).filterMap fun c =>
      (T.morph M.hash (.atom r.tailHashHash) c).bind s.created? : List Coin) : Multiset Coin) := by
  have hown : r.own.filterMap s.created? = [] := by
    refine List.filterMap_eq_nil_iff.2 fun c hc => ?_
    obtain ⟨id, rfl⟩ := r.silent hmelts c hc
    rfl
  have hperm := r.conditions_perm.filterMap s.created?
  rw [List.filterMap_append, hown, List.nil_append, List.filterMap_filterMap] at hperm
  rw [Spend.created, hconditions]
  exact Multiset.coe_eq_coe.2 hperm

end CatLayerRun

end CatLayer

end Lineage

end SlotMachine
