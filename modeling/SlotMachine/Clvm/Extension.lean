import SlotMachine.Clvm.Transcript

/-!
# Larger tables

A table of digests may be extended: `H ≤ H'` says that `H'` holds every message
of `H`, with the same digest.  Whatever was computed with the smaller table
comes out the same with the larger one.

* `treeHash_mono`, `curryTreeHash_mono` — **computed hashes stay**.
* `ofTranscript` — the table of some skeletons and some other messages.
-/

namespace SlotMachine

namespace HashOracle

/-- Every digest of `H` is one of `H'`. -/
instance : LE HashOracle where
  le H H' := ∀ ⦃m d : Bytes⦄, H.digest m = some d → H'.digest m = some d

variable {H H' : HashOracle}

theorem le_refl (H : HashOracle) : H ≤ H := fun _ _ h => h

theorem treeHashAtom_mono (h : H ≤ H') {v : Clvm} {d : Bytes} (hd : H.treeHashAtom v = some d) :
    H'.treeHashAtom v = some d := by
  obtain ⟨b, rfl, hb⟩ := treeHashAtom_eq_some.1 hd
  exact treeHashAtom_eq_some.2 ⟨b, rfl, h hb⟩

theorem treeHashPair_mono (h : H ≤ H') {l r : Clvm} {d : Bytes}
    (hd : H.treeHashPair l r = some d) : H'.treeHashPair l r = some d := by
  obtain ⟨a, b, rfl, rfl, hab⟩ := treeHashPair_eq_some.1 hd
  exact treeHashPair_eq_some.2 ⟨a, b, rfl, rfl, h hab⟩

theorem treeHash_mono (h : H ≤ H') {v : Clvm} {d : Bytes} (hd : H.treeHash v = some d) :
    H'.treeHash v = some d := by
  induction v generalizing d with
  | atom b => exact treeHashAtom_mono h hd
  | pair l r ihl ihr =>
      obtain ⟨hl, hr, h1, h2, h3⟩ := treeHash_pair_eq_some.1 hd
      exact treeHash_pair_eq_some.2 ⟨hl, hr, ihl h1, ihr h2, treeHashPair_mono h h3⟩

theorem hashExpression_mono (h : H ≤ H') {k : Byte} {p : Clvm} {e d : Bytes}
    (hd : H.hashExpression k p e = some d) : H'.hashExpression k p e = some d := by
  obtain ⟨kw, q, n, left, right, both, h1, h2, h3, h4, h5, h6, h7⟩ := hashExpression_eq_some.1 hd
  exact hashExpression_eq_some.2 ⟨kw, q, n, left, right, both, treeHashAtom_mono h h1,
    treeHashAtom_mono h h2, treeHashAtom_mono h h3, treeHashPair_mono h h4, treeHashPair_mono h h5,
    treeHashPair_mono h h6, treeHashPair_mono h h7⟩

theorem curriedParametersHash_mono (h : H ≤ H') {ps : List Clvm} {d : Bytes}
    (hd : H.curriedParametersHash ps = some d) : H'.curriedParametersHash ps = some d := by
  induction ps generalizing d with
  | nil => exact treeHashAtom_mono h hd
  | cons p ps ih =>
      obtain ⟨e, he, hx⟩ := curriedParametersHash_cons_eq_some.1 hd
      exact curriedParametersHash_cons_eq_some.2 ⟨e, ih he, hashExpression_mono h hx⟩

theorem curryTreeHash_mono (h : H ≤ H') {m : Clvm} {ps : List Clvm} {d : Bytes}
    (hd : H.curryTreeHash m ps = some d) : H'.curryTreeHash m ps = some d := by
  obtain ⟨e, he, hx⟩ := curryTreeHash_eq_some.1 hd
  exact curryTreeHash_eq_some.2 ⟨e, curriedParametersHash_mono h he, hashExpression_mono h hx⟩

/-! ## Skeletons and other messages -/

/-- The table of all messages hashed for some skeletons, and of some others. -/
def ofTranscript (ts : List Skeleton) (ms : List Bytes) : HashOracle :=
  ofQueries (ts.flatMap Skeleton.queries ++ ms)

theorem ofQueries_le {qs qs' : List Bytes} (h : qs ⊆ qs') : ofQueries qs ≤ ofQueries qs' := by
  intro m d hd
  simp only [ofQueries, Option.ite_none_right_eq_some, Option.some.injEq] at hd ⊢
  exact ⟨h hd.1, hd.2⟩

/-- Every table of SHA-256 digests is part of SHA-256. -/
theorem ofSkeletons_le_sha256 (ts : List Skeleton) : ofSkeletons ts ≤ sha256 := by
  intro m d hd
  simp only [ofSkeletons, ofQueries, Option.ite_none_right_eq_some] at hd
  exact hd.2

theorem ofSkeletons_le_ofTranscript (ts : List Skeleton) (ms : List Bytes) :
    ofSkeletons ts ≤ ofTranscript ts ms :=
  ofQueries_le (List.subset_append_left _ _)

theorem digest_ofTranscript {ts : List Skeleton} {ms : List Bytes} {m : Bytes} (h : m ∈ ms) :
    (ofTranscript ts ms).digest m = some (Sha256.hash m) :=
  digest_ofQueries (List.mem_append_right _ h)

/-- A table without collisions, if no two of its messages collide. -/
theorem ofTranscript_collisionFree {ts : List Skeleton} {ms : List Bytes}
    (h : noCollisions (ts.flatMap Skeleton.entries ++ entries ms) = true) :
    (ofTranscript ts ms).CollisionFree := by
  refine ofQueries_collisionFree ?_
  have hentries : entries (ts.flatMap Skeleton.queries ++ ms)
      = ts.flatMap Skeleton.entries ++ entries ms := by
    rw [entries, List.map_append, List.map_flatMap]
    exact congrArg (· ++ entries ms)
      (congrArg (ts.flatMap ·) (funext Skeleton.entries_queries))
  rw [hentries]
  exact h

end HashOracle

end SlotMachine
