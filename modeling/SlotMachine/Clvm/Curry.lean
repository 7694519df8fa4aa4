import SlotMachine.Clvm.Program
import SlotMachine.Clvm.Transcript

/-!
# Curried programs

A program with arguments curried into it, as a tree, and its SHA-256 tree hash.

* `curry` — `(a (q . PROGRAM) (c (q . A1) (c (q . A2) … 1)))`.
* `treeHash256` — the tree hash of a tree by SHA-256, which always has one.
* `curryTreeHash_treeHash256` — **`curry_tree_hash` computes the hash of the curried
  program** from the hashes of its parts.
* `exists_curry_of_treeHash` — without collisions, **a tree with the hash that
  `curry_tree_hash` computes is a curried program**, whatever it was computed from.
-/

namespace SlotMachine

namespace Clvm

/-- The environment a curried program builds. -/
def curriedEnvironment : List Clvm → Clvm
  | [] => .atom [1]
  | a :: as => .ofList [.atom [4], quoted a, curriedEnvironment as]

/-- A program with arguments curried into it. -/
def curry (program : Clvm) (arguments : List Clvm) : Clvm :=
  .ofList [.atom [2], quoted program, curriedEnvironment arguments]

/-- The SHA-256 tree hash. -/
def treeHash256 (v : Clvm) : Bytes := (Skeleton.ofClvm v).hash

theorem curriedEnvironment_injective : Function.Injective curriedEnvironment := by
  intro as bs h
  induction as generalizing bs with
  | nil =>
    cases bs with
    | nil => rfl
    | cons b bs => cases h
  | cons a as ih =>
    cases bs with
    | nil => cases h
    | cons b bs =>
      simp only [curriedEnvironment, ofList, quoted, pair.injEq, true_and, and_true] at h
      rw [h.1, ih h.2]

/-- A curried program is made of one program and one list of arguments. -/
theorem curry_inj {p p' : Clvm} {as as' : List Clvm} :
    curry p as = curry p' as' ↔ p = p' ∧ as = as' := by
  constructor
  · intro h
    simp only [curry, ofList, quoted, pair.injEq, true_and, and_true] at h
    exact ⟨h.1, curriedEnvironment_injective h.2⟩
  · rintro ⟨rfl, rfl⟩
    rfl

end Clvm

open Clvm

theorem treeHashAtom_sha256 (b : Bytes) :
    HashOracle.sha256.treeHashAtom (.atom b) = some (treeHash256 (.atom b)) := by
  show HashOracle.sha256.hashAtoms [.atom [1], .atom b] = _
  unfold HashOracle.hashAtoms
  rw [concatAtoms_atom_cons, concatAtoms_atom_cons, concatAtoms_nil, Option.map_some,
    Option.map_some, List.append_nil]
  rfl

theorem treeHashPair_sha256 (l r : Clvm) :
    HashOracle.sha256.treeHashPair (.atom (treeHash256 l)) (.atom (treeHash256 r))
      = some (treeHash256 (.pair l r)) := by
  show HashOracle.sha256.hashAtoms [.atom [2], .atom _, .atom _] = _
  unfold HashOracle.hashAtoms
  rw [concatAtoms_atom_cons, concatAtoms_atom_cons, concatAtoms_atom_cons, concatAtoms_nil,
    Option.map_some, Option.map_some, Option.map_some, List.append_nil]
  rfl

/-- **Every tree has a SHA-256 tree hash.** -/
theorem treeHash_sha256 (v : Clvm) : HashOracle.sha256.treeHash v = some (treeHash256 v) := by
  induction v with
  | atom b => exact treeHashAtom_sha256 b
  | pair l r ihl ihr =>
      exact HashOracle.treeHash_pair_eq_some.2 ⟨_, _, ihl, ihr, treeHashPair_sha256 l r⟩

theorem hashExpression_sha256 (keyword : Byte) (p e : Clvm) :
    HashOracle.sha256.hashExpression keyword (.atom (treeHash256 p)) (treeHash256 e)
      = some (treeHash256 (.ofList [.atom [keyword], quoted p, e])) :=
  HashOracle.hashExpression_eq_some.2 ⟨_, _, _, _, _, _, treeHashAtom_sha256 [keyword],
    treeHashAtom_sha256 [1], treeHashAtom_sha256 [], treeHashPair_sha256 (.atom [1]) p,
    treeHashPair_sha256 e .nil, treeHashPair_sha256 (quoted p) (.pair e .nil),
    treeHashPair_sha256 (.atom [keyword]) (.pair (quoted p) (.pair e .nil))⟩

theorem curriedParametersHash_sha256 (arguments : List Clvm) :
    HashOracle.sha256.curriedParametersHash (arguments.map fun a => .atom (treeHash256 a))
      = some (treeHash256 (curriedEnvironment arguments)) := by
  induction arguments with
  | nil => exact treeHashAtom_sha256 [1]
  | cons a arguments ih =>
      exact HashOracle.curriedParametersHash_cons_eq_some.2
        ⟨_, ih, hashExpression_sha256 4 a (curriedEnvironment arguments)⟩

/-- **The hash of a curried program** is computed from the hashes of its parts. -/
theorem curryTreeHash_treeHash256 (program : Clvm) (arguments : List Clvm) :
    HashOracle.sha256.curryTreeHash (.atom (treeHash256 program))
        (arguments.map fun a => .atom (treeHash256 a))
      = some (treeHash256 (curry program arguments)) :=
  HashOracle.curryTreeHash_eq_some.2 ⟨_, curriedParametersHash_sha256 arguments,
    hashExpression_sha256 2 program (curriedEnvironment arguments)⟩

/-! ## Trees with a computed hash -/

namespace HashOracle

variable {H : HashOracle}

/-- A tree with the hash of a pair is one.  One half of the hash is known to be a digest;
the other comes from a solution. -/
theorem exists_pair_of_treeHash (hH : H.CollisionFree) {v : Clvm} {a b d : Bytes}
    (hlen : a.length = 32 ∨ b.length = 32) (hv : H.treeHash v = some d)
    (h : H.treeHashPair (.atom a) (.atom b) = some d) :
    ∃ l r, v = .pair l r ∧ H.treeHash l = some a ∧ H.treeHash r = some b := by
  cases v with
  | atom x => exact absurd rfl (treeHashAtom_ne_treeHashPair hH hv h)
  | pair l r =>
    obtain ⟨hl, hr, h1, h2, h3⟩ := treeHash_pair_eq_some.1 hv
    have happ : hl ++ hr = a ++ b := treeHashPair_append_inj hH h3 h
    have hll : hl.length = 32 := length_treeHash h1
    have hlr : hr.length = 32 := length_treeHash h2
    have hsum : hl.length + hr.length = a.length + b.length := by
      rw [← List.length_append, happ, List.length_append]
    obtain ⟨rfl, rfl⟩ := List.append_inj happ (by omega)
    exact ⟨l, r, rfl, h1, h2⟩

/-- A tree with the hash of an atom is that atom. -/
theorem eq_atom_of_treeHash (hH : H.CollisionFree) {v : Clvm} {b d : Bytes}
    (hv : H.treeHash v = some d) (h : H.treeHashAtom (.atom b) = some d) : v = .atom b :=
  treeHash_inj hH hv h

/-- A tree with the hash of an expression is one. -/
theorem exists_expression_of_treeHash (hH : H.CollisionFree) {v p : Clvm} {k : Byte}
    {e d : Bytes} (hv : H.treeHash v = some d) (h : H.hashExpression k p e = some d) :
    ∃ program environment b, v = .ofList [.atom [k], quoted program, environment] ∧
      p = .atom b ∧ H.treeHash program = some b ∧ H.treeHash environment = some e := by
  obtain ⟨kw, q, n, left, right, both, hkw, hq, hn, hleft, hright, hboth, hwhole⟩ :=
    hashExpression_eq_some.1 h
  obtain ⟨_, b, -, rfl, -⟩ := treeHashPair_eq_some.1 hleft
  obtain ⟨keyword, operands, rfl, hkeyword, hoperands⟩ :=
    exists_pair_of_treeHash hH (.inl (length_hashAtoms hkw)) hv hwhole
  obtain ⟨first, rest, rfl, hfirst, hrest⟩ :=
    exists_pair_of_treeHash hH (.inl (length_hashAtoms hleft)) hoperands hboth
  obtain ⟨quote, program, rfl, hquote, hprogram⟩ :=
    exists_pair_of_treeHash hH (.inl (length_hashAtoms hq)) hfirst hleft
  obtain ⟨environment, nil, rfl, henvironment, hnil⟩ :=
    exists_pair_of_treeHash hH (.inr (length_hashAtoms hn)) hrest hright
  obtain rfl := eq_atom_of_treeHash hH hkeyword hkw
  obtain rfl := eq_atom_of_treeHash hH hquote hq
  obtain rfl : nil = .nil := eq_atom_of_treeHash hH hnil hn
  exact ⟨program, environment, b, rfl, rfl, hprogram, henvironment⟩

/-- The trees have the hashes that stand in for them. -/
def Hashed (H : HashOracle) (trees hashes : List Clvm) : Prop :=
  List.Forall₂ (fun v p => ∃ b, p = .atom b ∧ H.treeHash v = some b) trees hashes

theorem exists_environment_of_treeHash (hH : H.CollisionFree) {v : Clvm} {ps : List Clvm}
    {d : Bytes} (hv : H.treeHash v = some d) (h : H.curriedParametersHash ps = some d) :
    ∃ arguments, v = curriedEnvironment arguments ∧ H.Hashed arguments ps := by
  induction ps generalizing v d with
  | nil => exact ⟨[], eq_atom_of_treeHash hH hv h, .nil⟩
  | cons p ps ih =>
    obtain ⟨e, he, hexpression⟩ := curriedParametersHash_cons_eq_some.1 h
    obtain ⟨argument, environment, b, rfl, rfl, hargument, henvironment⟩ :=
      exists_expression_of_treeHash hH hv hexpression
    obtain ⟨arguments, rfl, harguments⟩ := ih henvironment he
    exact ⟨argument :: arguments, rfl, .cons ⟨b, rfl, hargument⟩ harguments⟩

/-- **A tree with the hash of a curried program is one**, of a program and arguments with
the hashes that went into it. -/
theorem exists_curry_of_treeHash (hH : H.CollisionFree) {v m : Clvm} {ps : List Clvm}
    {d : Bytes} (hv : H.treeHash v = some d) (h : H.curryTreeHash m ps = some d) :
    ∃ program arguments b, v = curry program arguments ∧ m = .atom b ∧
      H.treeHash program = some b ∧ H.Hashed arguments ps := by
  obtain ⟨e, he, hexpression⟩ := curryTreeHash_eq_some.1 h
  obtain ⟨program, environment, b, rfl, rfl, hprogram, henvironment⟩ :=
    exists_expression_of_treeHash hH hv hexpression
  obtain ⟨arguments, rfl, harguments⟩ := exists_environment_of_treeHash hH henvironment he
  exact ⟨program, arguments, b, rfl, rfl, hprogram, harguments⟩

theorem treeHash_expression {k : Byte} {program environment : Clvm} {b e d : Bytes}
    (hprogram : H.treeHash program = some b) (henvironment : H.treeHash environment = some e)
    (h : H.hashExpression k (.atom b) e = some d) :
    H.treeHash (.ofList [.atom [k], quoted program, environment]) = some d := by
  obtain ⟨kw, q, n, left, right, both, hkw, hq, hn, hleft, hright, hboth, hwhole⟩ :=
    hashExpression_eq_some.1 h
  have hquoted : H.treeHash (quoted program) = some left :=
    treeHash_pair_eq_some.2 ⟨q, b, hq, hprogram, hleft⟩
  have hlast : H.treeHash (.pair environment .nil) = some right :=
    treeHash_pair_eq_some.2 ⟨e, n, henvironment, hn, hright⟩
  have hoperands : H.treeHash (.pair (quoted program) (.pair environment .nil)) = some both :=
    treeHash_pair_eq_some.2 ⟨left, right, hquoted, hlast, hboth⟩
  exact treeHash_pair_eq_some.2 ⟨kw, both, hkw, hoperands, hwhole⟩

/-- What `curry_tree_hash` computes is the hash of the curried program. -/
theorem treeHash_curry {program : Clvm} {arguments ps : List Clvm} {b d : Bytes}
    (hprogram : H.treeHash program = some b) (harguments : H.Hashed arguments ps)
    (h : H.curryTreeHash (.atom b) ps = some d) :
    H.treeHash (curry program arguments) = some d := by
  obtain ⟨e, he, hexpression⟩ := curryTreeHash_eq_some.1 h
  refine treeHash_expression hprogram ?_ hexpression
  clear h hexpression
  induction harguments generalizing e with
  | nil => exact he
  | cons hargument _ ih =>
    obtain ⟨x, rfl, hx⟩ := hargument
    obtain ⟨e', he', hexpression⟩ := curriedParametersHash_cons_eq_some.1 he
    exact treeHash_expression hx (ih e' he') hexpression

end HashOracle

end SlotMachine
