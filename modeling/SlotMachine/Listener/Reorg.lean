import SlotMachine.Listener.SingletonStore

/-!
# Detecting a reorganisation

The listener keeps a window of heights with the header hashes it has seen, and
compares it with the chain of every new tip.

* `reorgRollbackFrom` — the height to roll back from (`xchandles/listen.rs`).
* `Truthful` — the headers of one chain, as the listener looks them up.
* `Detected` — the height is the first one that is orphaned.
* `reorg_detected_iff` — **when it is**: a tip below the window hides what is orphaned
  below that tip.
-/

namespace SlotMachine.Listener

/-- The loop over the window; a height without a record ends it. -/
def firstMismatch (hashAt : ℕ → Option Bytes) : List (ℕ × Bytes) → Option ℕ
  | [] => none
  | (height, hash) :: rest =>
      match hashAt height with
      | some onChain => if onChain = hash then firstMismatch hashAt rest else some height
      | none => none

/-- `reorg_rollback_from`. -/
def reorgRollbackFrom (stored : List (ℕ × Bytes)) (newHeight : ℕ) (newPrevHash : Bytes)
    (hashAt : ℕ → Option Bytes) : Option ℕ :=
  match stored.getLast? with
  | none => none
  | some (lastHeight, lastHash) =>
      if newHeight < lastHeight then some (saturatingAdd newHeight 1)
      else if newHeight = saturatingAdd lastHeight 1 ∧ newPrevHash = lastHash then none
      else firstMismatch hashAt stored

/-- The last entry of a list is related to all the others. -/
theorem eq_or_rel_getLast {α : Type*} {R : α → α → Prop} {l : List α} (h : l.Pairwise R)
    {last : α} (hlast : l.getLast? = some last) {a : α} (ha : a ∈ l) : a = last ∨ R a last := by
  obtain ⟨front, rfl⟩ := List.getLast?_eq_some_iff.1 hlast
  rw [List.pairwise_append] at h
  obtain ha | ha := List.mem_append.1 ha
  · exact Or.inr (h.2.2 a ha last (List.mem_singleton_self _))
  · exact Or.inl (List.mem_singleton.1 ha)

/-! ## The chain of the new tip -/

/-- A stored header is on the chain of the new tip. -/
def Canonical (newHeight : ℕ) (hashAt : ℕ → Option Bytes) (p : ℕ × Bytes) : Prop :=
  p.1 ≤ newHeight ∧ hashAt p.1 = some p.2

instance (newHeight : ℕ) (hashAt : ℕ → Option Bytes) (p : ℕ × Bytes) :
    Decidable (Canonical newHeight hashAt p) :=
  inferInstanceAs (Decidable (_ ∧ _))

/-- The window is one of `u32` heights that rise, and the headers that are looked up are
those of the chain below the new tip. -/
structure Truthful (stored : List (ℕ × Bytes)) (newHeight : ℕ) (newPrevHash : Bytes)
    (hashAt : ℕ → Option Bytes) : Prop where
  rising : stored.Pairwise fun p q => p.1 < q.1
  height_le : ∀ p ∈ stored, p.1 ≤ u32Max
  newHeight_le : newHeight ≤ u32Max
  total : ∀ h ≤ newHeight, (hashAt h).isSome
  prevHash : ∀ h, h + 1 = newHeight → hashAt h = some newPrevHash
  below : ∀ p ∈ stored, ∀ q ∈ stored, p.1 < q.1 → Canonical newHeight hashAt q →
    Canonical newHeight hashAt p

/-- **The first orphaned height**: at most the least one that is no longer canonical, above
those that are, and none if they all are. -/
def Detected (stored : List (ℕ × Bytes)) (newHeight : ℕ) (hashAt : ℕ → Option Bytes)
    (result : Option ℕ) : Prop :=
  (∀ h ∈ result, (∀ p ∈ stored, ¬ Canonical newHeight hashAt p → h ≤ p.1) ∧
    ∀ p ∈ stored, Canonical newHeight hashAt p → p.1 < h) ∧
  (result = none ↔ ∀ p ∈ stored, Canonical newHeight hashAt p)

section

variable {stored : List (ℕ × Bytes)} {newHeight : ℕ} {newPrevHash : Bytes}
variable {hashAt : ℕ → Option Bytes}

/-- What the scan finds is a height of the window. -/
theorem exists_of_firstMismatch {h : ℕ} (hscan : firstMismatch hashAt stored = some h) :
    ∃ p ∈ stored, p.1 = h := by
  induction stored with
  | nil => cases hscan
  | cons p rest ih =>
      unfold firstMismatch at hscan
      split at hscan
      · split at hscan
        · obtain ⟨q, hq, hqh⟩ := ih hscan
          exact ⟨q, List.mem_cons_of_mem _ hq, hqh⟩
        · exact ⟨p, List.mem_cons_self, Option.some.inj hscan⟩
      · cases hscan

/-- **The scan finds the first orphaned height**, when every height has a record. -/
theorem detected_firstMismatch (hrising : stored.Pairwise fun p q => p.1 < q.1)
    (htotal : ∀ p ∈ stored, p.1 ≤ newHeight ∧ (hashAt p.1).isSome)
    (hbelow : ∀ p ∈ stored, ∀ q ∈ stored, p.1 < q.1 → Canonical newHeight hashAt q →
      Canonical newHeight hashAt p) :
    Detected stored newHeight hashAt (firstMismatch hashAt stored) := by
  induction stored with
  | nil => simp [firstMismatch, Detected]
  | cons p rest ih =>
      obtain ⟨hle, hsome⟩ := htotal p List.mem_cons_self
      obtain ⟨onChain, hchain⟩ := Option.isSome_iff_exists.1 hsome
      rw [List.pairwise_cons] at hrising
      by_cases heq : onChain = p.2
      · have hp : Canonical newHeight hashAt p := ⟨hle, by rw [hchain, heq]⟩
        have hrest := ih hrising.2 (fun q hq => htotal q (List.mem_cons_of_mem _ hq))
          fun q hq r hr => hbelow q (List.mem_cons_of_mem _ hq) r (List.mem_cons_of_mem _ hr)
        have hscan : firstMismatch hashAt (p :: rest) = firstMismatch hashAt rest := by
          simp [firstMismatch, hchain, heq]
        rw [hscan]
        refine ⟨fun h hh => ⟨?_, ?_⟩, ?_⟩
        · intro q hq hnot
          obtain rfl | hq := List.mem_cons.1 hq
          · exact absurd hp hnot
          · exact (hrest.1 h hh).1 q hq hnot
        · intro q hq hcanonical
          obtain rfl | hq := List.mem_cons.1 hq
          · obtain ⟨r, hr, rfl⟩ := exists_of_firstMismatch hh
            exact hrising.1 r hr
          · exact (hrest.1 h hh).2 q hq hcanonical
        · rw [hrest.2, List.forall_mem_cons]
          exact ⟨fun h => ⟨hp, h⟩, And.right⟩
      · have hp : ¬ Canonical newHeight hashAt p := by
          rintro ⟨-, hcanonical⟩
          exact heq (Option.some.inj (hchain.symm.trans hcanonical))
        have hscan : firstMismatch hashAt (p :: rest) = some p.1 := by
          simp [firstMismatch, hchain, heq]
        rw [hscan]
        refine ⟨fun h hh => ?_, ?_⟩
        · obtain rfl := Option.some.inj hh
          refine ⟨fun q hq _ => ?_, fun q hq hcanonical => ?_⟩
          · obtain rfl | hq := List.mem_cons.1 hq
            · exact le_rfl
            · exact (hrising.1 q hq).le
          · obtain rfl | hq := List.mem_cons.1 hq
            · exact absurd hcanonical hp
            · exact absurd (hbelow p List.mem_cons_self q (List.mem_cons_of_mem _ hq)
                (hrising.1 q hq) hcanonical) hp
        · exact ⟨nofun, fun hall => absurd (hall p List.mem_cons_self) hp⟩

/-! ## The function -/

/-- A tip below the window has not hidden an orphan: what is stored up to it is canonical. -/
def RewoundClean (stored : List (ℕ × Bytes)) (newHeight : ℕ) (hashAt : ℕ → Option Bytes) : Prop :=
  (∃ q ∈ stored, newHeight < q.1) → ∀ p ∈ stored, p.1 ≤ newHeight → Canonical newHeight hashAt p

/-- At the largest height the tip and the one before it look the same. -/
def Wrapped (stored : List (ℕ × Bytes)) (newHeight : ℕ) (newPrevHash : Bytes) : Prop :=
  newHeight = u32Max ∧ stored.getLast? = some (u32Max, newPrevHash)

/-- A tip below the window. -/
theorem detected_rewound {q : ℕ × Bytes} (hq : q ∈ stored) (hlt : newHeight < q.1) :
    Detected stored newHeight hashAt (some (newHeight + 1)) ↔
      RewoundClean stored newHeight hashAt := by
  constructor
  · rintro ⟨hsome, -⟩ - p hp hle
    by_contra hnot
    have := (hsome _ rfl).1 p hp hnot
    omega
  · intro hclean
    refine ⟨fun h hh => ?_, nofun, fun hall => absurd (hall q hq).1 (Nat.not_le.2 hlt)⟩
    obtain rfl := Option.some.inj hh
    refine ⟨fun p hp hnot => ?_, fun p _ hcanonical => Nat.lt_succ_of_le hcanonical.1⟩
    by_contra hle
    exact hnot (hclean ⟨q, hq, hlt⟩ p hp (by omega))

/-- **When the rollback starts at the first orphaned height.**  A tip below the window is
taken to have orphaned what lies above it and nothing else. -/
theorem reorg_detected_iff (h : Truthful stored newHeight newPrevHash hashAt) :
    Detected stored newHeight hashAt (reorgRollbackFrom stored newHeight newPrevHash hashAt) ↔
      RewoundClean stored newHeight hashAt ∧
        (Wrapped stored newHeight newPrevHash → ∀ p ∈ stored, Canonical newHeight hashAt p) := by
  cases hlast : stored.getLast? with
  | none =>
      obtain rfl := List.getLast?_eq_none_iff.1 hlast
      simp [reorgRollbackFrom, Detected, RewoundClean]
  | some last =>
      obtain ⟨lastHeight, lastHash⟩ := last
      have hmem : (lastHeight, lastHash) ∈ stored := List.mem_of_getLast? hlast
      have hle : lastHeight ≤ u32Max := h.height_le _ hmem
      have hlower : ∀ p ∈ stored, p = (lastHeight, lastHash) ∨ p.1 < lastHeight :=
        fun p hp => eq_or_rel_getLast h.rising hlast hp
      have hmax : ∀ p ∈ stored, p.1 ≤ lastHeight := by
        intro p hp
        obtain rfl | hlt := hlower p hp
        · exact le_rfl
        · exact hlt.le
      unfold reorgRollbackFrom
      rw [hlast]
      dsimp only
      by_cases hrewound : newHeight < lastHeight
      · have hnext : saturatingAdd newHeight 1 = newHeight + 1 :=
          min_eq_left (Nat.succ_le_of_lt (hrewound.trans_le hle))
        have hwrapped : ¬ Wrapped stored newHeight newPrevHash :=
          fun hw => absurd (hw.1 ▸ hrewound) (Nat.not_lt.2 hle)
        rw [if_pos hrewound, hnext, detected_rewound hmem hrewound]
        exact ⟨fun hclean => ⟨hclean, fun hw => absurd hw hwrapped⟩, And.left⟩
      · have hclean : RewoundClean stored newHeight hashAt := by
          rintro ⟨q, hq, hlt⟩
          exact absurd (hlt.trans_le (hmax q hq)) hrewound
        rw [if_neg hrewound]
        split
        · next hlinear =>
            obtain ⟨hheight, rfl⟩ := hlinear
            have hnone : Detected stored newHeight hashAt none ↔
                ∀ p ∈ stored, Canonical newHeight hashAt p :=
              ⟨fun hd => hd.2.1 rfl, fun hall => ⟨nofun, fun _ => hall, fun _ => rfl⟩⟩
            rw [hnone]
            refine ⟨fun hall => ⟨hclean, fun _ => hall⟩, fun hright => ?_⟩
            obtain hlt | heq := hle.lt_or_eq
            -- the header before the tip is the last one of the window
            · have hsucc : lastHeight + 1 = newHeight :=
                (hheight.trans (min_eq_left (Nat.succ_le_of_lt hlt))).symm
              have hlastCanonical : Canonical newHeight hashAt (lastHeight, newPrevHash) :=
                ⟨by omega, h.prevHash lastHeight hsucc⟩
              intro p hp
              obtain rfl | hlt := hlower p hp
              · exact hlastCanonical
              · exact h.below p hp _ hmem hlt hlastCanonical
            · refine hright.2 ⟨?_, by rw [hlast, heq]⟩
              rw [hheight, heq]
              rfl
        · next hlinear =>
            have hwrapped : ¬ Wrapped stored newHeight newPrevHash := by
              rintro ⟨hheight, hlast'⟩
              rw [hlast, Option.some.injEq, Prod.mk.injEq] at hlast'
              refine hlinear ⟨?_, hlast'.2.symm⟩
              rw [hheight, hlast'.1]
              rfl
            have htotal : ∀ p ∈ stored, p.1 ≤ newHeight ∧ (hashAt p.1).isSome := by
              intro p hp
              have hp' := (hmax p hp).trans (Nat.not_lt.1 hrewound)
              exact ⟨hp', h.total _ hp'⟩
            exact ⟨fun _ => ⟨hclean, fun hw => absurd hw hwrapped⟩,
              fun _ => detected_firstMismatch h.rising htotal h.below⟩

end

/-! ## A tip below the window, as an example -/

namespace ReorgExample

/-- Three stored heights. -/
def stored : List (ℕ × Bytes) := [(10, [1]), (11, [2]), (12, [3])]

/-- The chain forks at the first of them. -/
def forkedAt : ℕ → Option Bytes
  | 10 => some [4]
  | 11 => some [5]
  | _ => some [6]

theorem truthful_forked : Truthful stored 11 [4] forkedAt where
  rising := by decide
  height_le := by decide
  newHeight_le := by decide
  total h hle := by
    unfold forkedAt
    split <;> rfl
  prevHash h hh := by
    obtain rfl : h = 10 := by omega
    rfl
  below := by decide

/-- The chain forks after the first of them. -/
def rewoundAt : ℕ → Option Bytes
  | 10 => some [1]
  | _ => some [6]

theorem truthful_rewound : Truthful stored 10 [6] rewoundAt where
  rising := by decide
  height_le := by decide
  newHeight_le := by decide
  total h hle := by
    unfold rewoundAt
    split <;> rfl
  prevHash h hh := by
    obtain rfl : h = 9 := by omega
    rfl
  below := by decide

end ReorgExample

open ReorgExample in
/-- A tip below the window, on the chain that the window has up to there. -/
theorem reorg_detected_iff_rewound :
    Truthful stored 10 [6] rewoundAt ∧ reorgRollbackFrom stored 10 [6] rewoundAt = some 11 ∧
      Detected stored 10 rewoundAt (some 11) := by
  have hclean : RewoundClean stored 10 rewoundAt := by
    intro _ p hp hle
    obtain rfl | rfl | rfl : p = (10, [1]) ∨ p = (11, [2]) ∨ p = (12, [3]) := by
      simpa [stored] using hp
    · exact ⟨le_rfl, rfl⟩
    · omega
    · omega
  have hwrapped : ¬ Wrapped stored 10 [6] := fun hw => absurd hw.1 (by decide)
  exact ⟨truthful_rewound, rfl, (reorg_detected_iff truthful_rewound).2
    ⟨hclean, fun hw => absurd hw hwrapped⟩⟩

open ReorgExample in
/-- **A tip below the window hides a deeper fork**: the rollback starts at 12, and the
headers at 10 and 11 are orphaned. -/
theorem reorg_detected_fails :
    Truthful stored 11 [4] forkedAt ∧ reorgRollbackFrom stored 11 [4] forkedAt = some 12 ∧
      ¬ Detected stored 11 forkedAt (reorgRollbackFrom stored 11 [4] forkedAt) := by
  refine ⟨truthful_forked, rfl, fun hd => ?_⟩
  have hle := (hd.1 12 rfl).1 (10, [1]) (by decide) (by decide)
  exact absurd hle (by decide)

end SlotMachine.Listener
