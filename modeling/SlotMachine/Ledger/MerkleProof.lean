import SlotMachine.Ledger.MerkleTree

/-!
# Merkle proofs of a tree

A proof is a path and the siblings on it, from the leaf up: the lowest bit of the path
says on which side the next sibling stands.

* `ofPath` — the steps of a walk that a path and its siblings describe.
* `Tree.proof` — the proof of a leaf.
* `climb_proof` — **the proof of a leaf leads from it to the root**, and
  `exists_proof` — every leaf has one.
-/

namespace Merkle

variable {α V : Type*}

/-- The steps along a path: a set bit puts the sibling on the left. -/
def ofPath : ℕ → List V → List (Sibling V)
  | _, [] => []
  | path, sibling :: siblings => ⟨decide (path % 2 = 1), sibling⟩ :: ofPath (path / 2) siblings

/-- The bits of a path beyond its siblings do not matter. -/
theorem ofPath_add_pow (path k : ℕ) (siblings : List V) :
    ofPath (path + k * 2 ^ siblings.length) siblings = ofPath path siblings := by
  induction siblings generalizing path with
  | nil => rfl
  | cons s siblings ih =>
    have hpow : k * 2 ^ (siblings.length + 1) = 2 * (k * 2 ^ siblings.length) := by ring
    have hmod : (path + 2 * (k * 2 ^ siblings.length)) % 2 = path % 2 := by omega
    have hdiv : (path + 2 * (k * 2 ^ siblings.length)) / 2
        = path / 2 + k * 2 ^ siblings.length := by omega
    rw [List.length_cons, hpow]
    unfold ofPath
    rw [hmod, hdiv, ih]

/-- The last step of a path. -/
theorem ofPath_concat (path : ℕ) (siblings : List V) (s : V) :
    ofPath path (siblings ++ [s])
      = ofPath path siblings ++ [⟨decide (path / 2 ^ siblings.length % 2 = 1), s⟩] := by
  induction siblings generalizing path with
  | nil => simp [ofPath]
  | cons s' siblings ih =>
    rw [List.cons_append, ofPath, ofPath, ih, List.cons_append, List.length_cons, pow_succ',
      Nat.div_div_eq_div_mul]

namespace Tree

variable (S : Scheme α V) [DecidableEq α]

/-- The proof of a leaf: its path, with a bit for every node of which it is on the right,
and the siblings from the leaf up. -/
def proof (a : α) : Tree α → Option (ℕ × List V)
  | leaf b => if a = b then some (0, []) else none
  | node l r =>
      match proof a l with
      | some (path, siblings) => do
          let y ← r.root S
          some (path, siblings ++ [y])
      | none => do
          let (path, siblings) ← proof a r
          let x ← l.root S
          some (path + 2 ^ siblings.length, siblings ++ [x])

variable {S}

/-- A path has no bits beyond its siblings. -/
theorem proof_lt {a : α} {t : Tree α} {path : ℕ} {siblings : List V}
    (h : t.proof S a = some (path, siblings)) : path < 2 ^ siblings.length := by
  induction t generalizing path siblings with
  | leaf b =>
    unfold proof at h
    split at h
    · obtain ⟨rfl, rfl⟩ := Prod.mk.inj (Option.some.inj h)
      exact Nat.one_pos
    · cases h
  | node l r ihl ihr =>
    unfold proof at h
    split at h
    · rename_i p s hl
      obtain ⟨y, -, hy⟩ := Option.bind_eq_some_iff.1 h
      obtain ⟨rfl, rfl⟩ := Prod.mk.inj (Option.some.inj hy)
      have := ihl hl
      rw [List.length_append, List.length_singleton, pow_succ]
      omega
    · obtain ⟨⟨p, s⟩, hr, h'⟩ := Option.bind_eq_some_iff.1 h
      obtain ⟨x, -, hx⟩ := Option.bind_eq_some_iff.1 h'
      obtain ⟨rfl, rfl⟩ := Prod.mk.inj (Option.some.inj hx)
      have := ihr hr
      rw [List.length_append, List.length_singleton, pow_succ]
      omega

/-- **Every leaf of a tree with a root has a proof.** -/
theorem exists_proof {a : α} {t : Tree α} {d : V} (hroot : t.root S = some d)
    (ha : a ∈ t.leaves) : ∃ p, t.proof S a = some p := by
  induction t generalizing d with
  | leaf b =>
    obtain rfl := List.mem_singleton.1 ha
    exact ⟨_, if_pos rfl⟩
  | node l r ihl ihr =>
    obtain ⟨x, y, hx, hy, -⟩ := root_node_eq_some.1 hroot
    unfold proof
    cases hl : l.proof S a with
    | some p => exact ⟨_, Option.bind_eq_some_iff.2 ⟨y, hy, rfl⟩⟩
    | none =>
      rcases List.mem_append.1 ha with ha | ha
      · obtain ⟨p, hp⟩ := ihl hx ha
        rw [hl] at hp
        cases hp
      · obtain ⟨p, hp⟩ := ihr hy ha
        exact ⟨_, Option.bind_eq_some_iff.2 ⟨p, hp, Option.bind_eq_some_iff.2 ⟨x, hx, rfl⟩⟩⟩

end Tree

/-- **The proof of a leaf leads from it to the root.** -/
theorem climb_proof {S : Scheme α V} [DecidableEq α] {a : α} {t : Tree α} {path : ℕ}
    {siblings : List V} {d : V} (hroot : t.root S = some d)
    (h : t.proof S a = some (path, siblings)) :
    ∃ v, S.leaf a = some v ∧ climb S v (ofPath path siblings) = some d := by
  induction t generalizing path siblings d with
  | leaf b =>
    unfold Tree.proof at h
    split at h
    · rename_i hab
      obtain ⟨rfl, rfl⟩ := Prod.mk.inj (Option.some.inj h)
      subst hab
      exact ⟨d, hroot, rfl⟩
    · cases h
  | node l r ihl ihr =>
    obtain ⟨x, y, hx, hy, hnode⟩ := Tree.root_node_eq_some.1 hroot
    unfold Tree.proof at h
    split at h
    · -- on the left, the sibling of the last step is the root on the right
      rename_i p s hl
      obtain ⟨y', hy', hpair⟩ := Option.bind_eq_some_iff.1 h
      obtain ⟨rfl, rfl⟩ := Prod.mk.inj (Option.some.inj hpair)
      obtain ⟨v, hv, hclimb⟩ := ihl hx hl
      refine ⟨v, hv, ?_⟩
      have hbit : p / 2 ^ s.length = 0 := Nat.div_eq_of_lt (Tree.proof_lt hl)
      rw [ofPath_concat, hbit]
      refine climb_concat.2 ⟨x, hclimb, ?_⟩
      rw [Option.some.inj (hy'.symm.trans hy)]
      exact hnode
    · obtain ⟨⟨p, s⟩, hr, h'⟩ := Option.bind_eq_some_iff.1 h
      obtain ⟨x', hx', hpair⟩ := Option.bind_eq_some_iff.1 h'
      obtain ⟨rfl, rfl⟩ := Prod.mk.inj (Option.some.inj hpair)
      obtain ⟨v, hv, hclimb⟩ := ihr hy hr
      refine ⟨v, hv, ?_⟩
      have hbit : (p + 2 ^ s.length) / 2 ^ s.length = 1 := by
        rw [Nat.add_div_right _ (by positivity), Nat.div_eq_of_lt (Tree.proof_lt hr)]
      have hpath : ofPath (p + 2 ^ s.length) s = ofPath p s := by
        have := ofPath_add_pow p 1 s
        rwa [one_mul] at this
      rw [ofPath_concat, hbit, hpath]
      refine climb_concat.2 ⟨y, hclimb, ?_⟩
      rw [Option.some.inj (hx'.symm.trans hx)]
      exact hnode

end Merkle
