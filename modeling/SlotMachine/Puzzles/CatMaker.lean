import SlotMachine.Clvm.Extension
import SlotMachine.Clvm.Program

/-!
# CAT makers

A registry is paid in one kind of CAT.  Which kind is up to a program, the CAT
maker: from the hash of an inner puzzle it computes the puzzle hash of a coin
of that CAT with this inner puzzle.  Actions are given the program in their
solutions and run it (`runCatMaker`).

* `BindsInner` — the contract of a CAT maker that the registries rest on: one
  puzzle hash comes from one inner puzzle hash only.
* `defaultCatMaker`, `revocableCatMaker` — the two CAT makers of the
  repository; `IsCatMaker.bindsInner` shows that both keep the contract.
* `isCatMaker_defaultCatMakerProgram` — a CLVM program that is one of them.
-/

namespace SlotMachine

/-- `CatMaker`: a program and what it is run with. -/
structure CatMaker where
  puzzle : Clvm
  solution : Clvm

/-- `cat_maker.puzzle(inner_puzzle_hash, ...cat_maker.solution)`, used as bytes. -/
def runCatMaker (M : Machine) (puzzle : Clvm) (innerPuzzleHash : Bytes) (solution : Clvm) :
    Option Bytes := do
  let out ← M.eval puzzle (.pair (.atom innerPuzzleHash) solution)
  out.bytes?

theorem runCatMaker_eq_some {M : Machine} {p s : Clvm} {i ph : Bytes} :
    runCatMaker M p i s = some ph ↔ M.eval p (.pair (.atom i) s) = some (.atom ph) := by
  simp only [runCatMaker, Option.bind_eq_bind, Option.bind_eq_some_iff, Clvm.bytes?_eq_some]
  constructor
  · rintro ⟨v, hv, rfl⟩; exact hv
  · intro h; exact ⟨_, h, rfl⟩

/-- `(q . PUZZLE_HASH)` as a CAT maker returns its puzzle hash, whatever it is given. -/
theorem runCatMaker_quoted (H : HashOracle) (other : Bytes → List Clvm → Option Clvm) (fuel : ℕ)
    (ph i : Bytes) (s : Clvm) :
    runCatMaker (.clvm H other (fuel + 1)) (.quoted (.atom ph)) i s = some ph :=
  runCatMaker_eq_some.2 (Clvm.run_quote H other fuel (.atom ph) (.pair (.atom i) s))

/-- A CAT maker returns the puzzle hash "of a CAT with the given inner puzzle":
whatever else it is given, different inner puzzles have different CATs. -/
def BindsInner (M : Machine) (maker : Clvm) : Prop :=
  ∀ ⦃i i' : Bytes⦄ ⦃s s' : Clvm⦄ ⦃ph : Bytes⦄, runCatMaker M maker i s = some ph →
    runCatMaker M maker i' s' = some ph → i = i'

/-! ## The two CAT makers -/

/-- `default_cat_maker.rue`: no layer between the CAT and the inner puzzle. -/
def defaultCatMaker (H : HashOracle) (catModHash tailHashHash innerPuzzleHash : Bytes) :
    Option Bytes := do
  let m ← H.treeHashAtom (.atom catModHash)
  H.curryTreeHash (.atom catModHash) [.atom m, .atom tailHashHash, .atom innerPuzzleHash]

/-- `RevocableCatStruct`. -/
structure RevocableCatStruct where
  catModHash : Bytes
  revocationLayerModHash : Bytes
  hiddenPuzzleHashHash : Bytes

/-- `revocable_cat_maker.rue`: the revocation layer between the two. -/
def revocableCatMaker (H : HashOracle) (s : RevocableCatStruct)
    (tailHashHash innerPuzzleHash : Bytes) : Option Bytes := do
  let m ← H.treeHashAtom (.atom s.catModHash)
  let layerMod ← H.treeHashAtom (.atom s.revocationLayerModHash)
  let i ← H.treeHashAtom (.atom innerPuzzleHash)
  let layer ← H.curryTreeHash (.atom s.revocationLayerModHash)
    [.atom layerMod, .atom s.hiddenPuzzleHashHash, .atom i]
  H.curryTreeHash (.atom s.catModHash) [.atom m, .atom tailHashHash, .atom layer]

section

variable {H : HashOracle}

theorem defaultCatMaker_inj (hH : H.CollisionFree) {m t i i' ph : Bytes}
    (h : defaultCatMaker H m t i = some ph) (h' : defaultCatMaker H m t i' = some ph) : i = i' := by
  obtain ⟨a, -, h1⟩ := bind_elim h
  obtain ⟨a', -, h1'⟩ := bind_elim h'
  obtain ⟨-, hps⟩ := HashOracle.curryTreeHash_inj hH h1 h1'
  simpa using (List.cons.inj (List.cons.inj (List.cons.inj hps).2).2).1

theorem revocableCatMaker_inj (hH : H.CollisionFree) {s : RevocableCatStruct} {t i i' ph : Bytes}
    (h : revocableCatMaker H s t i = some ph) (h' : revocableCatMaker H s t i' = some ph) :
    i = i' := by
  obtain ⟨a, -, h1⟩ := bind_elim h
  obtain ⟨b, -, h2⟩ := bind_elim h1
  obtain ⟨c, hc, h3⟩ := bind_elim h2
  obtain ⟨layer, hlayer, h4⟩ := bind_elim h3
  obtain ⟨a', -, h1'⟩ := bind_elim h'
  obtain ⟨b', -, h2'⟩ := bind_elim h1'
  obtain ⟨c', hc', h3'⟩ := bind_elim h2'
  obtain ⟨layer', hlayer', h4'⟩ := bind_elim h3'
  -- the two layers are one, so what is below them is one
  obtain ⟨-, hps⟩ := HashOracle.curryTreeHash_inj hH h4 h4'
  obtain rfl : layer = layer' := by
    simpa using (List.cons.inj (List.cons.inj (List.cons.inj hps).2).2).1
  obtain ⟨-, hqs⟩ := HashOracle.curryTreeHash_inj hH hlayer hlayer'
  obtain rfl : c = c' := by
    simpa using (List.cons.inj (List.cons.inj (List.cons.inj hqs).2).2).1
  exact Clvm.atom.inj (HashOracle.treeHashAtom_inj hH hc hc')

end

/-- A program that computes one of the two CAT makers, whatever it is given
after the inner puzzle hash. -/
inductive IsCatMaker (M : Machine) (maker : Clvm) : Prop where
  | default (catModHash tailHashHash : Bytes)
      (computes : ∀ (i : Bytes) (s : Clvm), M.eval maker (.pair (.atom i) s)
        = (defaultCatMaker M.hash catModHash tailHashHash i).map .atom)
  | revocable (struct : RevocableCatStruct) (tailHashHash : Bytes)
      (computes : ∀ (i : Bytes) (s : Clvm), M.eval maker (.pair (.atom i) s)
        = (revocableCatMaker M.hash struct tailHashHash i).map .atom)

/-- **Both CAT makers keep the contract.** -/
theorem IsCatMaker.bindsInner {M : Machine} (hH : M.hash.CollisionFree) {maker : Clvm}
    (h : IsCatMaker M maker) : BindsInner M maker := by
  intro i i' s s' ph hi hi'
  rw [runCatMaker_eq_some] at hi hi'
  cases h with
  | default m t computes =>
      rw [computes, Option.map_eq_some_iff] at hi hi'
      obtain ⟨d, hd, ⟨⟩⟩ := hi
      obtain ⟨d', hd', ⟨⟩⟩ := hi'
      exact defaultCatMaker_inj hH hd hd'
  | revocable struct t computes =>
      rw [computes, Option.map_eq_some_iff] at hi hi'
      obtain ⟨d, hd, ⟨⟩⟩ := hi
      obtain ⟨d', hd', ⟨⟩⟩ := hi'
      exact revocableCatMaker_inj hH hd hd'

/-! ## A program -/

/-- The default CAT maker as a program, for a CAT module and a TAIL. -/
def defaultCatMakerProgram (catModHash tailHashHash : Bytes) : Clvm :=
  Clvm.curryTreeHashOf (Clvm.quoted (.atom catModHash))
    [Clvm.treeHashAtomOf (Clvm.quoted (.atom catModHash)), Clvm.quoted (.atom tailHashHash),
      .atom [2]]

/-- The interpreter computes the default CAT maker with it. -/
theorem eval_defaultCatMakerProgram (H : HashOracle) (other : Bytes → List Clvm → Option Clvm)
    (fuel : ℕ) (m t i : Bytes) (s : Clvm) :
    (Machine.clvm H other (fuel + 14)).eval (defaultCatMakerProgram m t) (.pair (.atom i) s)
      = (defaultCatMaker H m t i).map .atom := by
  have hmod : Clvm.Returns H other 1 (.quoted (.atom m)) (.pair (.atom i) s) (some m) :=
    Clvm.returns_quoted m
  have htail : Clvm.Returns H other 1 (.quoted (.atom t)) (.pair (.atom i) s) (some t) :=
    Clvm.returns_quoted t
  have hinner : Clvm.Returns H other 1 (.atom [2]) (.pair (.atom i) s) (some i) :=
    Clvm.returns_first i s
  have hall := (hmod.mono one_le_two).curryTreeHash
    (.cons (hmod.treeHashAtom le_rfl) (.cons (htail.mono one_le_two)
      (.cons (hinner.mono one_le_two) .nil))) le_rfl
  refine (hall (fuel + 14) (by simp)).trans (congrArg _ ?_)
  cases hm : H.treeHashAtom (.atom m) <;> simp [defaultCatMaker, hm]

/-- A run of the default CAT maker. -/
theorem runCatMaker_default {H : HashOracle} {other : Bytes → List Clvm → Option Clvm} (fuel : ℕ)
    {m t i ph : Bytes} {s : Clvm} (h : defaultCatMaker H m t i = some ph) :
    runCatMaker (.clvm H other (fuel + 14)) (defaultCatMakerProgram m t) i s = some ph := by
  rw [runCatMaker_eq_some, eval_defaultCatMakerProgram, h]
  rfl

theorem isCatMaker_defaultCatMakerProgram (H : HashOracle)
    (other : Bytes → List Clvm → Option Clvm) (fuel : ℕ) (m t : Bytes) :
    IsCatMaker (Machine.clvm H other (fuel + 14)) (defaultCatMakerProgram m t) :=
  .default m t (eval_defaultCatMakerProgram H other fuel m t)

theorem defaultCatMaker_mono {H H' : HashOracle} (h : H ≤ H') {m t i ph : Bytes}
    (hph : defaultCatMaker H m t i = some ph) : defaultCatMaker H' m t i = some ph := by
  obtain ⟨a, ha, h1⟩ := bind_elim hph
  exact bind_intro (HashOracle.treeHashAtom_mono h ha) (HashOracle.curryTreeHash_mono h h1)

/-- What is hashed by the default CAT maker. -/
def defaultCatMakerSkeletons (catModHash tailHashHash innerPuzzleHash : Bytes) : List Skeleton :=
  [.atom catModHash,
    .curry catModHash [(Skeleton.atom catModHash).hash, tailHashHash, innerPuzzleHash]]

/-- The puzzle hash that the default CAT maker computes, by SHA-256. -/
def defaultCatHash (catModHash tailHashHash innerPuzzleHash : Bytes) : Bytes :=
  (Skeleton.curry catModHash [(Skeleton.atom catModHash).hash, tailHashHash, innerPuzzleHash]).hash

theorem defaultCatMaker_ofSkeletons {ts : List Skeleton} {m t i : Bytes}
    (h : defaultCatMakerSkeletons m t i ⊆ ts) :
    defaultCatMaker (.ofSkeletons ts) m t i = some (defaultCatHash m t i) := by
  have hcurry : Skeleton.curry m [(Skeleton.atom m).hash, t, i] ∈ ts :=
    h (by simp [defaultCatMakerSkeletons])
  exact bind_intro (HashOracle.treeHashAtom_ofSkeletons (h (by simp [defaultCatMakerSkeletons])))
    (HashOracle.curryTreeHash_ofSkeletons hcurry)

end SlotMachine
