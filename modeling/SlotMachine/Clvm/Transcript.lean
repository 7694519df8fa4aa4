import SlotMachine.Clvm.TreeHash

/-!
# The messages of a hash computation

A finite table of SHA-256 digests serves a computation if it holds every message
that the computation hashes.  A `Skeleton` is a tree to be hashed in which some
subtrees are given by their digests only, as in a curried puzzle hash;
`Skeleton.queries` lists the messages, and `HashOracle.ofSkeletons` is the table
of them.

* `treeHash_ofSkeletons`, `curryTreeHash_ofSkeletons` — the table computes the
  tree hash of every tree, and the hash of every curried program, that it was
  made for.
* `ofSkeletons_collisionFree` — how a concrete table is checked for collisions.
-/

namespace SlotMachine

/-- A tree to be hashed, with digests in the place of some subtrees. -/
inductive Skeleton where
  | digest (d : Bytes)
  | atom (b : Bytes)
  | pair (first rest : Skeleton)

namespace Skeleton

/-- The tree hash. -/
def hash : Skeleton → Bytes
  | digest d => d
  | atom b => Sha256.hash (1 :: b)
  | pair l r => Sha256.hash (2 :: (l.hash ++ r.hash))

/-- The messages that are hashed for it. -/
def queries : Skeleton → List Bytes
  | digest _ => []
  | atom b => [1 :: b]
  | pair l r => (2 :: (l.hash ++ r.hash)) :: (l.queries ++ r.queries)

/-- The messages with their digests, as numbers. -/
def entries : Skeleton → List (ℕ × ℕ)
  | digest _ => []
  | atom b => [(HashOracle.number (atom b).hash, HashOracle.number (1 :: b))]
  | pair l r =>
      (HashOracle.number (pair l r).hash, HashOracle.number (2 :: (l.hash ++ r.hash)))
        :: (l.entries ++ r.entries)

theorem entries_queries (t : Skeleton) : HashOracle.entries t.queries = t.entries := by
  induction t with
  | digest d => rfl
  | atom b => rfl
  | pair l r ihl ihr =>
      rw [queries, HashOracle.entries, List.map_cons, List.map_append, entries, ← ihl, ← ihr]
      rfl

/-- A whole tree. -/
def ofClvm : Clvm → Skeleton
  | .atom b => atom b
  | .pair l r => pair (ofClvm l) (ofClvm r)

/-- `(keyword (q . P) E)`. -/
def expression (keyword : Byte) (quoted environment : Skeleton) : Skeleton :=
  pair (atom [keyword]) (pair (pair (atom [1]) quoted) (pair environment (atom [])))

/-- The environment of a curried program. -/
def environment : List Bytes → Skeleton
  | [] => atom [1]
  | p :: ps => expression 4 (digest p) (environment ps)

/-- A curried program, from the digests of its parts. -/
def curry (program : Bytes) (parameters : List Bytes) : Skeleton :=
  expression 2 (digest program) (environment parameters)

end Skeleton

namespace HashOracle

/-- The table of all messages hashed for some skeletons. -/
def ofSkeletons (ts : List Skeleton) : HashOracle := ofQueries (ts.flatMap Skeleton.queries)

/-- A table without collisions, if no two of its messages collide. -/
theorem ofSkeletons_collisionFree {ts : List Skeleton}
    (h : noCollisions (ts.flatMap Skeleton.entries) = true) : (ofSkeletons ts).CollisionFree := by
  refine ofQueries_collisionFree ?_
  have hentries : entries (ts.flatMap Skeleton.queries) = ts.flatMap Skeleton.entries := by
    rw [entries, List.map_flatMap]
    exact congrArg (ts.flatMap ·) (funext Skeleton.entries_queries)
  rw [hentries]
  exact h

/-! ## The table computes -/

section

variable {qs : List Bytes}

theorem treeHashAtom_ofQueries {b : Bytes} (h : (Skeleton.atom b).queries ⊆ qs) :
    (ofQueries qs).treeHashAtom (.atom b) = some (Skeleton.atom b).hash :=
  treeHashAtom_eq_some.2 ⟨b, rfl, digest_ofQueries (h (List.mem_singleton_self _))⟩

theorem treeHashPair_ofQueries {l r : Skeleton} (h : (Skeleton.pair l r).queries ⊆ qs) :
    (ofQueries qs).treeHashPair (.atom l.hash) (.atom r.hash) = some (Skeleton.pair l r).hash :=
  treeHashPair_eq_some.2 ⟨_, _, rfl, rfl, digest_ofQueries (h (List.mem_cons_self ..))⟩

theorem queries_left {l r : Skeleton} (h : (Skeleton.pair l r).queries ⊆ qs) : l.queries ⊆ qs :=
  fun _ hq => h (List.mem_cons_of_mem _ (List.mem_append_left _ hq))

theorem queries_right {l r : Skeleton} (h : (Skeleton.pair l r).queries ⊆ qs) : r.queries ⊆ qs :=
  fun _ hq => h (List.mem_cons_of_mem _ (List.mem_append_right _ hq))

theorem treeHash_ofQueries {v : Clvm} (h : (Skeleton.ofClvm v).queries ⊆ qs) :
    (ofQueries qs).treeHash v = some (Skeleton.ofClvm v).hash := by
  induction v with
  | atom b => exact treeHashAtom_ofQueries h
  | pair l r ihl ihr =>
      exact treeHash_pair_eq_some.2 ⟨_, _, ihl (queries_left h), ihr (queries_right h),
        treeHashPair_ofQueries h⟩

theorem hashExpression_ofQueries {k : Byte} {p : Bytes} {e : Skeleton}
    (h : (Skeleton.expression k (.digest p) e).queries ⊆ qs) :
    (ofQueries qs).hashExpression k (.atom p) e.hash
      = some (Skeleton.expression k (.digest p) e).hash := by
  have hboth := queries_right h
  exact hashExpression_eq_some.2 ⟨_, _, _, _, _, _, treeHashAtom_ofQueries (queries_left h),
    treeHashAtom_ofQueries (queries_left (queries_left hboth)),
    treeHashAtom_ofQueries (queries_right (queries_right hboth)),
    treeHashPair_ofQueries (queries_left hboth), treeHashPair_ofQueries (queries_right hboth),
    treeHashPair_ofQueries hboth, treeHashPair_ofQueries h⟩

theorem curriedParametersHash_ofQueries {ps : List Bytes}
    (h : (Skeleton.environment ps).queries ⊆ qs) :
    (ofQueries qs).curriedParametersHash (ps.map .atom) = some (Skeleton.environment ps).hash := by
  induction ps with
  | nil => exact treeHashAtom_ofQueries h
  | cons p ps ih =>
      exact curriedParametersHash_cons_eq_some.2
        ⟨_, ih (queries_left (queries_right (queries_right h))), hashExpression_ofQueries h⟩

end

section

variable {ts : List Skeleton}

theorem queries_subset {t : Skeleton} (h : t ∈ ts) : t.queries ⊆ ts.flatMap Skeleton.queries :=
  fun _ hq => List.mem_flatMap.2 ⟨t, h, hq⟩

/-- A table for a leaf. -/
theorem treeHashAtom_ofSkeletons {b : Bytes} (h : .atom b ∈ ts) :
    (ofSkeletons ts).treeHashAtom (.atom b) = some (Skeleton.atom b).hash :=
  treeHashAtom_ofQueries (queries_subset h)

/-- **A table for a tree computes its tree hash.** -/
theorem treeHash_ofSkeletons {v : Clvm} (h : .ofClvm v ∈ ts) :
    (ofSkeletons ts).treeHash v = some (Skeleton.ofClvm v).hash :=
  treeHash_ofQueries (queries_subset h)

/-- **A table for a curried program computes its puzzle hash.** -/
theorem curryTreeHash_ofSkeletons {m : Bytes} {ps : List Bytes} (h : .curry m ps ∈ ts) :
    (ofSkeletons ts).curryTreeHash (.atom m) (ps.map .atom) = some (Skeleton.curry m ps).hash := by
  have hsub := queries_subset h
  exact curryTreeHash_eq_some.2
    ⟨_, curriedParametersHash_ofQueries (queries_left (queries_right (queries_right hsub))),
      hashExpression_ofQueries hsub⟩

end

end HashOracle

end SlotMachine
