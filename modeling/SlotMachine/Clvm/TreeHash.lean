import SlotMachine.Clvm.Sha256

/-!
# Tree hashes and curried puzzle hashes

The hashes Chia puzzles are built from, over any `HashOracle`:

* `treeHash` — `sha256(1, atom)` for an atom, `sha256(2, left, right)` for a
  pair (`include/sha256tree.clib`, `tree_hash` in Rue);
* `curryTreeHash` — the tree hash of a program with curried arguments, given
  the tree hashes of the program and of the arguments (`include/curry.clib`,
  `curry_tree_hash` in Rue);
* `coinid` — the operator of that name.

Without collisions each of them determines everything it was computed from:
`treeHash_inj`, `curryTreeHash_inj`, `coinid_inj`.  The arguments of
`curryTreeHash` are atoms of *any* length, because most of them come straight
from a solution.
-/

namespace SlotMachine

namespace HashOracle

variable (H : HashOracle)

/-! ## Definitions -/

/-- The operator `sha256`: the digest of the concatenated arguments. -/
def hashAtoms (args : List Clvm) : Option Bytes := do
  let m ← concatAtoms args
  H.digest m

/-- `tree_hash_atom`. -/
def treeHashAtom (v : Clvm) : Option Bytes := H.hashAtoms [.atom [1], v]

/-- `tree_hash_pair`, from the hashes of the two halves. -/
def treeHashPair (l r : Clvm) : Option Bytes := H.hashAtoms [.atom [2], l, r]

/-- `tree_hash` (`sha256tree`). -/
def treeHash : Clvm → Option Bytes
  | .atom b => H.treeHashAtom (.atom b)
  | .pair l r => do
      let hl ← treeHash l
      let hr ← treeHash r
      H.treeHashPair (.atom hl) (.atom hr)

/-- The tree hash of `(keyword (q . P) E)`, from the hash of `P` and the hash of
`E`. -/
def hashExpression (keyword : Byte) (quoted : Clvm) (environment : Bytes) : Option Bytes := do
  let kw ← H.treeHashAtom (.atom [keyword])
  let q ← H.treeHashAtom (.atom [1])
  let n ← H.treeHashAtom .nil
  let left ← H.treeHashPair (.atom q) quoted
  let right ← H.treeHashPair (.atom environment) (.atom n)
  let both ← H.treeHashPair (.atom left) (.atom right)
  H.treeHashPair (.atom kw) (.atom both)

/-- The tree hash of the environment `(c (q . P1) (c (q . P2) … 1))`. -/
def curriedParametersHash : List Clvm → Option Bytes
  | [] => H.treeHashAtom (.atom [1])
  | p :: ps => do
      let environment ← curriedParametersHash ps
      H.hashExpression 4 p environment

/-- `curry_tree_hash`: the tree hash of `(a (q . MOD) ENVIRONMENT)`. -/
def curryTreeHash (modHash : Clvm) (parameters : List Clvm) : Option Bytes := do
  let environment ← H.curriedParametersHash parameters
  H.hashExpression 2 modHash environment

/-- An amount as `coinid` takes it: a canonical, non-negative atom of at most
eight bytes of magnitude. -/
def validAmount (b : Bytes) : Bool :=
  decide (intToBytes (intFromBytes b) = b ∧ 0 ≤ intFromBytes b ∧ intFromBytes b < 2 ^ 64)

/-- `coinid`: it raises unless parent and puzzle hash are 32 bytes long. -/
def coinid (parent puzzleHash amount : Clvm) : Option Bytes := do
  let p ← parent.bytes?
  let ph ← puzzleHash.bytes?
  let a ← amount.bytes?
  assertThat (decide (p.length = 32) && decide (ph.length = 32) && validAmount a)
  H.digest (p ++ ph ++ a)

/-! ## What a defined hash says about its input -/

variable {H}

theorem hashAtoms_eq_some {args : List Clvm} {d : Bytes} :
    H.hashAtoms args = some d ↔ ∃ m, concatAtoms args = some m ∧ H.digest m = some d := by
  simp only [hashAtoms, Option.bind_eq_bind, Option.bind_eq_some_iff]

theorem length_hashAtoms {args : List Clvm} {d : Bytes} (h : H.hashAtoms args = some d) :
    d.length = 32 := by
  obtain ⟨m, -, hm⟩ := hashAtoms_eq_some.1 h
  exact H.length_digest hm

theorem treeHashAtom_eq_some {v : Clvm} {d : Bytes} :
    H.treeHashAtom v = some d ↔ ∃ b, v = .atom b ∧ H.digest (1 :: b) = some d := by
  cases v <;> simp [treeHashAtom, hashAtoms, concatAtoms, Clvm.bytes?]

theorem treeHashPair_eq_some {l r : Clvm} {d : Bytes} :
    H.treeHashPair l r = some d ↔
      ∃ a b, l = .atom a ∧ r = .atom b ∧ H.digest (2 :: (a ++ b)) = some d := by
  cases l <;> cases r <;> simp [treeHashPair, hashAtoms, concatAtoms, Clvm.bytes?]

theorem treeHash_pair_eq_some {l r : Clvm} {d : Bytes} :
    H.treeHash (.pair l r) = some d ↔
      ∃ hl hr, H.treeHash l = some hl ∧ H.treeHash r = some hr ∧
        H.treeHashPair (.atom hl) (.atom hr) = some d := by
  simp only [treeHash, Option.bind_eq_bind, Option.bind_eq_some_iff]
  constructor
  · rintro ⟨hl, h1, hr, h2, h3⟩; exact ⟨hl, hr, h1, h2, h3⟩
  · rintro ⟨hl, hr, h1, h2, h3⟩; exact ⟨hl, h1, hr, h2, h3⟩

theorem length_treeHash {v : Clvm} {d : Bytes} (h : H.treeHash v = some d) : d.length = 32 := by
  cases v with
  | atom b => exact length_hashAtoms h
  | pair l r =>
      obtain ⟨_, _, -, -, h⟩ := treeHash_pair_eq_some.1 h
      exact length_hashAtoms h

theorem hashExpression_eq_some {k : Byte} {p : Clvm} {e d : Bytes} :
    H.hashExpression k p e = some d ↔
      ∃ kw q n left right both, H.treeHashAtom (.atom [k]) = some kw ∧
        H.treeHashAtom (.atom [1]) = some q ∧ H.treeHashAtom .nil = some n ∧
        H.treeHashPair (.atom q) p = some left ∧
        H.treeHashPair (.atom e) (.atom n) = some right ∧
        H.treeHashPair (.atom left) (.atom right) = some both ∧
        H.treeHashPair (.atom kw) (.atom both) = some d := by
  simp only [hashExpression, Option.bind_eq_bind, Option.bind_eq_some_iff]
  constructor
  · rintro ⟨kw, h1, q, h2, n, h3, left, h4, right, h5, both, h6, h7⟩
    exact ⟨kw, q, n, left, right, both, h1, h2, h3, h4, h5, h6, h7⟩
  · rintro ⟨kw, q, n, left, right, both, h1, h2, h3, h4, h5, h6, h7⟩
    exact ⟨kw, h1, q, h2, n, h3, left, h4, right, h5, both, h6, h7⟩

theorem curriedParametersHash_cons_eq_some {p : Clvm} {ps : List Clvm} {d : Bytes} :
    H.curriedParametersHash (p :: ps) = some d ↔
      ∃ e, H.curriedParametersHash ps = some e ∧ H.hashExpression 4 p e = some d := by
  simp only [curriedParametersHash, Option.bind_eq_bind, Option.bind_eq_some_iff]

theorem curryTreeHash_eq_some {m : Clvm} {ps : List Clvm} {d : Bytes} :
    H.curryTreeHash m ps = some d ↔
      ∃ e, H.curriedParametersHash ps = some e ∧ H.hashExpression 2 m e = some d := by
  simp only [curryTreeHash, Option.bind_eq_bind, Option.bind_eq_some_iff]

/-- The parameters of a curried program are given by their hashes. -/
theorem atom_of_curryTreeHash {m : Clvm} {ps : List Clvm} {d : Bytes}
    (h : H.curryTreeHash m ps = some d) : ∀ p ∈ ps, ∃ b, p = .atom b := by
  obtain ⟨e, he, -⟩ := curryTreeHash_eq_some.1 h
  clear h
  induction ps generalizing e with
  | nil => exact fun p hp => absurd hp List.not_mem_nil
  | cons q ps ih =>
      obtain ⟨e', he', hexpression⟩ := curriedParametersHash_cons_eq_some.1 he
      obtain ⟨_, _, _, _, _, _, -, -, -, hquoted, -⟩ := hashExpression_eq_some.1 hexpression
      obtain ⟨_, b, -, hb, -⟩ := treeHashPair_eq_some.1 hquoted
      intro p hp
      rcases List.mem_cons.1 hp with rfl | hp
      · exact ⟨b, hb⟩
      · exact ih e' he' p hp

theorem length_curryTreeHash {m : Clvm} {ps : List Clvm} {d : Bytes}
    (h : H.curryTreeHash m ps = some d) : d.length = 32 := by
  obtain ⟨e, -, h⟩ := curryTreeHash_eq_some.1 h
  obtain ⟨_, _, _, _, _, _, -, -, -, -, -, -, h⟩ := hashExpression_eq_some.1 h
  exact length_hashAtoms h

theorem coinid_eq_some {parent puzzleHash amount : Clvm} {d : Bytes} :
    H.coinid parent puzzleHash amount = some d ↔
      ∃ p ph a, parent = .atom p ∧ puzzleHash = .atom ph ∧ amount = .atom a ∧ p.length = 32 ∧
        ph.length = 32 ∧ validAmount a = true ∧ H.digest (p ++ ph ++ a) = some d := by
  simp only [coinid, Option.bind_eq_bind, Option.bind_eq_some_iff, Clvm.bytes?_eq_some,
    assertThat_eq_some, Bool.and_eq_true, decide_eq_true_eq]
  constructor
  · rintro ⟨p, rfl, ph, rfl, a, rfl, -, ⟨⟨h1, h2⟩, h3⟩, h4⟩
    exact ⟨p, ph, a, rfl, rfl, rfl, h1, h2, h3, h4⟩
  · rintro ⟨p, ph, a, rfl, rfl, rfl, h1, h2, h3, h4⟩
    exact ⟨p, rfl, ph, rfl, a, rfl, (), ⟨⟨h1, h2⟩, h3⟩, h4⟩

/-! ## Hashes without collisions -/

/-- The preimages of a leaf and of a pair start with different bytes. -/
theorem treeHashAtom_ne_treeHashPair (hH : H.CollisionFree) {v l r : Clvm} {d d' : Bytes}
    (h : H.treeHashAtom v = some d) (h' : H.treeHashPair l r = some d') : d ≠ d' := by
  rintro rfl
  obtain ⟨b, -, h⟩ := treeHashAtom_eq_some.1 h
  obtain ⟨a, c, -, -, h'⟩ := treeHashPair_eq_some.1 h'
  have := hH h h'
  simp at this

theorem treeHashAtom_inj (hH : H.CollisionFree) {v v' : Clvm} {d : Bytes}
    (h : H.treeHashAtom v = some d) (h' : H.treeHashAtom v' = some d) : v = v' := by
  obtain ⟨b, rfl, hd⟩ := treeHashAtom_eq_some.1 h
  obtain ⟨b', rfl, hd'⟩ := treeHashAtom_eq_some.1 h'
  have hb : b = b' := List.tail_eq_of_cons_eq (hH hd hd')
  rw [hb]

/-- A pair hash fixes the concatenation of its two halves. -/
theorem treeHashPair_append_inj (hH : H.CollisionFree) {a b a' b' d : Bytes}
    (h : H.treeHashPair (.atom a) (.atom b) = some d)
    (h' : H.treeHashPair (.atom a') (.atom b') = some d) : a ++ b = a' ++ b' := by
  obtain ⟨_, _, ha, hb, h⟩ := treeHashPair_eq_some.1 h
  obtain ⟨_, _, ha', hb', h'⟩ := treeHashPair_eq_some.1 h'
  cases ha; cases hb; cases ha'; cases hb'
  exact List.tail_eq_of_cons_eq (hH h h')

/-- A pair hash determines both halves as soon as the right halves have one length. -/
theorem treeHashPair_inj (hH : H.CollisionFree) {l r l' r' : Clvm} {d : Bytes}
    (h : H.treeHashPair l r = some d) (h' : H.treeHashPair l' r' = some d)
    (hlen : ∀ b b', r = .atom b → r' = .atom b' → b.length = b'.length) : l = l' ∧ r = r' := by
  obtain ⟨a, b, rfl, rfl, -⟩ := treeHashPair_eq_some.1 h
  obtain ⟨a', b', rfl, rfl, -⟩ := treeHashPair_eq_some.1 h'
  obtain ⟨rfl, rfl⟩ := List.append_inj' (treeHashPair_append_inj hH h h') (hlen b b' rfl rfl)
  exact ⟨rfl, rfl⟩

/-- **The tree hash determines the tree.** -/
theorem treeHash_inj (hH : H.CollisionFree) {v v' : Clvm} {d : Bytes}
    (h : H.treeHash v = some d) (h' : H.treeHash v' = some d) : v = v' := by
  induction v generalizing v' d with
  | atom b =>
      cases v' with
      | atom b' => exact treeHashAtom_inj hH h h'
      | pair l' r' =>
          obtain ⟨_, _, -, -, h'⟩ := treeHash_pair_eq_some.1 h'
          exact absurd rfl (treeHashAtom_ne_treeHashPair hH h h')
  | pair l r ihl ihr =>
      obtain ⟨hl, hr, h1, h2, h3⟩ := treeHash_pair_eq_some.1 h
      cases v' with
      | atom b' => exact absurd rfl (treeHashAtom_ne_treeHashPair hH h' h3)
      | pair l' r' =>
          obtain ⟨hl', hr', h1', h2', h3'⟩ := treeHash_pair_eq_some.1 h'
          obtain ⟨el, er⟩ := treeHashPair_inj hH h3 h3' (by
            rintro b b' ⟨⟩ ⟨⟩
            rw [length_treeHash h2, length_treeHash h2'])
          cases el; cases er
          rw [ihl h1 h1', ihr h2 h2']

/-- The hash of an expression determines its keyword, its quoted program and
its environment.  The fixed-length parts of each concatenation are the digests
of `q` and of nil, so the lengths of the other parts do not matter. -/
theorem hashExpression_inj (hH : H.CollisionFree) {k k' : Byte} {p p' : Clvm} {e e' d : Bytes}
    (h : H.hashExpression k p e = some d) (h' : H.hashExpression k' p' e' = some d) :
    k = k' ∧ p = p' ∧ e = e' := by
  obtain ⟨kw, q, n, left, right, both, h1, h2, h3, h4, h5, h6, h7⟩ := hashExpression_eq_some.1 h
  obtain ⟨kw', q', n', left', right', both', h1', h2', h3', h4', h5', h6', h7'⟩ :=
    hashExpression_eq_some.1 h'
  obtain rfl : q = q' := Option.some.inj (h2.symm.trans h2')
  obtain rfl : n = n' := Option.some.inj (h3.symm.trans h3')
  obtain ⟨ekw, eboth⟩ := treeHashPair_inj hH h7 h7' (by
    rintro b b' ⟨⟩ ⟨⟩; rw [length_hashAtoms h6, length_hashAtoms h6'])
  cases ekw; cases eboth
  obtain ⟨eleft, eright⟩ := treeHashPair_inj hH h6 h6' (by
    rintro b b' ⟨⟩ ⟨⟩; rw [length_hashAtoms h5, length_hashAtoms h5'])
  cases eleft; cases eright
  have hk := treeHashAtom_inj hH h1 h1'
  have he := (treeHashPair_inj hH h5 h5' (by rintro b b' ⟨⟩ ⟨⟩; rfl)).1
  obtain ⟨_, x, hq, rfl, -⟩ := treeHashPair_eq_some.1 h4
  obtain ⟨_, x', hq', rfl, -⟩ := treeHashPair_eq_some.1 h4'
  have hx : x = x' := List.append_cancel_left (treeHashPair_append_inj hH h4 h4')
  cases hk; cases he; cases hx
  exact ⟨rfl, rfl, rfl⟩

theorem curriedParametersHash_inj (hH : H.CollisionFree) {ps ps' : List Clvm} {d : Bytes}
    (h : H.curriedParametersHash ps = some d) (h' : H.curriedParametersHash ps' = some d) :
    ps = ps' := by
  -- an empty list hashes as the leaf `1`, a longer one as a pair
  have hne : ∀ {p ps d}, H.curriedParametersHash (p :: ps) = some d →
      H.curriedParametersHash [] ≠ some d := by
    intro p ps d hc hnil
    obtain ⟨e, -, hx⟩ := curriedParametersHash_cons_eq_some.1 hc
    obtain ⟨_, _, _, _, _, _, -, -, -, -, -, -, h7⟩ := hashExpression_eq_some.1 hx
    exact treeHashAtom_ne_treeHashPair hH hnil h7 rfl
  induction ps generalizing ps' d with
  | nil =>
      cases ps' with
      | nil => rfl
      | cons p' ps' => exact absurd h (hne h')
  | cons p ps ih =>
      cases ps' with
      | nil => exact absurd h' (hne h)
      | cons p' ps' =>
          obtain ⟨e, he, hx⟩ := curriedParametersHash_cons_eq_some.1 h
          obtain ⟨e', he', hx'⟩ := curriedParametersHash_cons_eq_some.1 h'
          obtain ⟨-, rfl, rfl⟩ := hashExpression_inj hH hx hx'
          rw [ih he he']

/-- **A curried puzzle hash determines the program hash and the argument hashes.** -/
theorem curryTreeHash_inj (hH : H.CollisionFree) {m m' : Clvm} {ps ps' : List Clvm} {d : Bytes}
    (h : H.curryTreeHash m ps = some d) (h' : H.curryTreeHash m' ps' = some d) :
    m = m' ∧ ps = ps' := by
  obtain ⟨e, he, hx⟩ := curryTreeHash_eq_some.1 h
  obtain ⟨e', he', hx'⟩ := curryTreeHash_eq_some.1 h'
  obtain ⟨-, rfl, rfl⟩ := hashExpression_inj hH hx hx'
  exact ⟨rfl, curriedParametersHash_inj hH he he'⟩

/-- A coin id determines the coin. -/
theorem coinid_inj (hH : H.CollisionFree) {p ph a p' ph' a' : Clvm} {d : Bytes}
    (h : H.coinid p ph a = some d) (h' : H.coinid p' ph' a' = some d) :
    p = p' ∧ ph = ph' ∧ a = a' := by
  obtain ⟨b, bh, ba, rfl, rfl, rfl, h1, h2, -, hd⟩ := coinid_eq_some.1 h
  obtain ⟨b', bh', ba', rfl, rfl, rfl, h1', h2', -, hd'⟩ := coinid_eq_some.1 h'
  have happ := hH hd hd'
  rw [List.append_assoc, List.append_assoc] at happ
  obtain ⟨rfl, htail⟩ := List.append_inj happ (h1.trans h1'.symm)
  obtain ⟨rfl, rfl⟩ := List.append_inj htail (h2.trans h2'.symm)
  exact ⟨rfl, rfl, rfl⟩

/-! ## A total table hashes everything -/

theorem Total.treeHashAtom (hH : H.Total) (b : Bytes) : ∃ d, H.treeHashAtom (.atom b) = some d := by
  obtain ⟨d, hd⟩ := hH (1 :: b)
  exact ⟨d, treeHashAtom_eq_some.2 ⟨b, rfl, hd⟩⟩

theorem Total.treeHashPair (hH : H.Total) (a b : Bytes) :
    ∃ d, H.treeHashPair (.atom a) (.atom b) = some d := by
  obtain ⟨d, hd⟩ := hH (2 :: (a ++ b))
  exact ⟨d, treeHashPair_eq_some.2 ⟨a, b, rfl, rfl, hd⟩⟩

theorem Total.treeHash (hH : H.Total) (v : Clvm) : ∃ d, H.treeHash v = some d := by
  induction v with
  | atom b => exact hH.treeHashAtom b
  | pair l r ihl ihr =>
      obtain ⟨hl, h1⟩ := ihl
      obtain ⟨hr, h2⟩ := ihr
      obtain ⟨d, hd⟩ := hH.treeHashPair hl hr
      exact ⟨d, treeHash_pair_eq_some.2 ⟨hl, hr, h1, h2, hd⟩⟩

theorem Total.hashExpression (hH : H.Total) (k : Byte) (b e : Bytes) :
    ∃ d, H.hashExpression k (.atom b) e = some d := by
  obtain ⟨kw, h1⟩ := hH.treeHashAtom [k]
  obtain ⟨q, h2⟩ := hH.treeHashAtom [1]
  obtain ⟨n, h3⟩ := hH.treeHashAtom []
  obtain ⟨left, h4⟩ := hH.treeHashPair q b
  obtain ⟨right, h5⟩ := hH.treeHashPair e n
  obtain ⟨both, h6⟩ := hH.treeHashPair left right
  obtain ⟨d, h7⟩ := hH.treeHashPair kw both
  exact ⟨d, hashExpression_eq_some.2 ⟨kw, q, n, left, right, both, h1, h2, h3, h4, h5, h6, h7⟩⟩

theorem Total.curryTreeHash (hH : H.Total) (m : Bytes) (ps : List Bytes) :
    ∃ d, H.curryTreeHash (.atom m) (ps.map .atom) = some d := by
  have henv : ∃ e, H.curriedParametersHash (ps.map .atom) = some e := by
    induction ps with
    | nil => exact hH.treeHashAtom [1]
    | cons p ps ih =>
        obtain ⟨e, he⟩ := ih
        obtain ⟨d, hd⟩ := hH.hashExpression 4 p e
        exact ⟨d, curriedParametersHash_cons_eq_some.2 ⟨e, he, hd⟩⟩
  obtain ⟨e, he⟩ := henv
  obtain ⟨d, hd⟩ := hH.hashExpression 2 m e
  exact ⟨d, curryTreeHash_eq_some.2 ⟨e, he, hd⟩⟩

end HashOracle

end SlotMachine
