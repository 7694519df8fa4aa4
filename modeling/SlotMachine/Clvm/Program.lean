import SlotMachine.Clvm.Machine

/-!
# Programs that hash

CAT makers are programs which compute a curried puzzle hash.  This file builds
such programs from the operators `q` and `sha256`, and proves that the
interpreter computes the hash functions with them.

* `Returns` — what a program returns, for every sufficiently deep run.
* `treeHashAtomOf`, `treeHashPairOf`, `curryTreeHashOf` — the programs, with
  `Returns.curryTreeHash` as the main result.
-/

namespace SlotMachine

namespace Clvm

/-! ## Programs -/

/-- `(q . v)`. -/
def quoted (v : Clvm) : Clvm := .pair (.atom [1]) v

/-- `(sha256 …)`. -/
def sha256Of (args : List Clvm) : Clvm := .pair (.atom [11]) (.ofList args)

/-- A program for `tree_hash_atom`. -/
def treeHashAtomOf (p : Clvm) : Clvm := sha256Of [quoted (.atom [1]), p]

/-- A program for `tree_hash_pair`. -/
def treeHashPairOf (l r : Clvm) : Clvm := sha256Of [quoted (.atom [2]), l, r]

/-- A program for the hash of `(keyword (q . P) E)`. -/
def hashExpressionOf (keyword : Byte) (p e : Clvm) : Clvm :=
  treeHashPairOf (treeHashAtomOf (quoted (.atom [keyword])))
    (treeHashPairOf (treeHashPairOf (treeHashAtomOf (quoted (.atom [1]))) p)
      (treeHashPairOf e (treeHashAtomOf (quoted .nil))))

/-- A program for the hash of the environment of a curried program. -/
def curriedParametersOf : List Clvm → Clvm
  | [] => treeHashAtomOf (quoted (.atom [1]))
  | p :: ps => hashExpressionOf 4 p (curriedParametersOf ps)

/-- A program for `curry_tree_hash`. -/
def curryTreeHashOf (modHash : Clvm) (parameters : List Clvm) : Clvm :=
  hashExpressionOf 2 modHash (curriedParametersOf parameters)

/-! ## What they return -/

section

variable (H : HashOracle) (other : Bytes → List Clvm → Option Clvm)

/-- Every run of `p` that may nest `n` deep returns the atom `b`, or raises if
`b` is `none`. -/
def Returns (n : ℕ) (p env : Clvm) (b : Option Bytes) : Prop :=
  ∀ fuel, n ≤ fuel → run H other fuel p env = b.map .atom

variable {H other} {n m : ℕ} {p l r env : Clvm} {a b : Option Bytes}

theorem Returns.mono (h : Returns H other n p env b) (hnm : n ≤ m) : Returns H other m p env b :=
  fun fuel hfuel => h fuel (hnm.trans hfuel)

theorem returns_quoted (b : Bytes) : Returns H other 1 (quoted (.atom b)) env (some b) := by
  intro fuel hfuel
  obtain ⟨fuel, rfl⟩ := Nat.exists_eq_add_of_le' hfuel
  exact run_quote ..

/-- The path `2` is the first argument of a program. -/
theorem returns_first (b : Bytes) (rest : Clvm) :
    Returns H other 1 (.atom [2]) (.pair (.atom b) rest) (some b) := by
  intro fuel hfuel
  obtain ⟨fuel, rfl⟩ := Nat.exists_eq_add_of_le' hfuel
  exact run_path ..

theorem run_sha256Of (fuel : ℕ) (args : List Clvm) (env : Clvm) :
    run H other (fuel + 1) (sha256Of args) env =
      (evalOperands (fun p => run H other fuel p env) (.ofList args)).bind fun vs =>
        (H.hashAtoms vs).map .atom := by
  rw [sha256Of, run]
  rfl

theorem Returns.treeHashAtom (h : Returns H other n p env b) (hn : 1 ≤ n) :
    Returns H other (n + 1) (treeHashAtomOf p) env (b.bind fun x => H.treeHashAtom (.atom x)) := by
  intro fuel hfuel
  obtain ⟨fuel, rfl⟩ := Nat.exists_eq_add_of_le' (Nat.le_of_add_left_le hfuel)
  have hle : n ≤ fuel := Nat.le_of_succ_le_succ hfuel
  rw [treeHashAtomOf, run_sha256Of]
  simp only [ofList, evalOperands, nil, returns_quoted [1] fuel (hn.trans hle), h fuel hle]
  cases b <;> rfl

theorem Returns.treeHashPair (hl : Returns H other n l env a) (hr : Returns H other n r env b)
    (hn : 1 ≤ n) :
    Returns H other (n + 1) (treeHashPairOf l r) env
      (a.bind fun x => b.bind fun y => H.treeHashPair (.atom x) (.atom y)) := by
  intro fuel hfuel
  obtain ⟨fuel, rfl⟩ := Nat.exists_eq_add_of_le' (Nat.le_of_add_left_le hfuel)
  have hle : n ≤ fuel := Nat.le_of_succ_le_succ hfuel
  rw [treeHashPairOf, run_sha256Of]
  simp only [ofList, evalOperands, nil, returns_quoted [2] fuel (hn.trans hle), hl fuel hle,
    hr fuel hle]
  cases a <;> cases b <;> rfl

theorem Returns.hashExpression (keyword : Byte) (hp : Returns H other n p env a)
    (he : Returns H other n r env b) (hn : 2 ≤ n) :
    Returns H other (n + 3) (hashExpressionOf keyword p r) env
      (a.bind fun x => b.bind fun y => H.hashExpression keyword (.atom x) y) := by
  have hquoted : ∀ b : Bytes, Returns H other n (treeHashAtomOf (quoted (.atom b))) env
      (H.treeHashAtom (.atom b)) := fun b => ((returns_quoted b).treeHashAtom le_rfl).mono hn
  have hleft := (hquoted [1]).treeHashPair hp (by omega)
  have hright := he.treeHashPair (hquoted []) (by omega)
  have hboth := hleft.treeHashPair hright (by omega)
  have hall := ((hquoted [keyword]).mono (m := n + 2) (by omega)).treeHashPair hboth (by omega)
  -- the program hashes its parts in another order
  refine fun fuel hfuel => (hall fuel hfuel).trans (congrArg _ (Option.ext fun d => ?_))
  simp only [HashOracle.hashExpression, Option.bind_eq_bind, Option.bind_eq_some_iff]
  constructor
  · rintro ⟨kw, hkw, both, ⟨left, ⟨q, hq, x, rfl, h1⟩, right, ⟨y, rfl, nl, hnl, h2⟩, h3⟩, h4⟩
    exact ⟨x, rfl, y, rfl, kw, hkw, q, hq, nl, hnl, left, h1, right, h2, both, h3, h4⟩
  · rintro ⟨x, rfl, y, rfl, kw, hkw, q, hq, nl, hnl, left, h1, right, h2, both, h3, h4⟩
    exact ⟨kw, hkw, both, ⟨left, ⟨q, hq, x, rfl, h1⟩, right, ⟨y, rfl, nl, hnl, h2⟩, h3⟩, h4⟩

/-- The parameters of a curried program, if none of them raises. -/
theorem Returns.curriedParameters {ps : List Clvm} {bs : List (Option Bytes)}
    (h : List.Forall₂ (Returns H other n · env) ps bs) (hn : 2 ≤ n) :
    Returns H other (n + 3 * ps.length) (curriedParametersOf ps) env
      ((bs.mapM id).bind fun xs => H.curriedParametersHash (xs.map .atom)) := by
  induction h with
  | nil => exact ((returns_quoted [1]).treeHashAtom le_rfl).mono hn
  | @cons p b ps bs hp _ ih =>
      have hrest := (hp.mono (Nat.le_add_right n _)).hashExpression 4 ih (by omega)
      have heq : (b.bind fun x => ((bs.mapM id).bind fun xs =>
            H.curriedParametersHash (xs.map .atom)).bind fun y => H.hashExpression 4 (.atom x) y)
          = ((b :: bs).mapM id).bind fun xs => H.curriedParametersHash (xs.map .atom) := by
        cases b <;> cases hbs : bs.mapM id <;>
          simp [hbs, List.mapM_cons, HashOracle.curriedParametersHash]
      rw [← heq]
      exact hrest.mono (by rw [List.length_cons]; omega)

/-- **The program for `curry_tree_hash` computes it.** -/
theorem Returns.curryTreeHash {m : Clvm} {modHash : Bytes} {ps : List Clvm}
    {bs : List (Option Bytes)} (hm : Returns H other n m env (some modHash))
    (h : List.Forall₂ (Returns H other n · env) ps bs) (hn : 2 ≤ n) :
    Returns H other (n + 3 * ps.length + 3) (curryTreeHashOf m ps) env
      ((bs.mapM id).bind fun xs => H.curryTreeHash (.atom modHash) (xs.map .atom)) := by
  have hall := (hm.mono (Nat.le_add_right n _)).hashExpression 2 (Returns.curriedParameters h hn)
    (by omega)
  have heq : ((bs.mapM id).bind fun xs => H.curryTreeHash (.atom modHash) (xs.map .atom))
      = ((bs.mapM id).bind fun xs => H.curriedParametersHash (xs.map .atom)).bind fun y =>
        H.hashExpression 2 (.atom modHash) y := by
    cases bs.mapM id <;> simp [HashOracle.curryTreeHash]
  rw [heq]
  exact hall

end

end Clvm

end SlotMachine
