import SlotMachine.Ledger.Settlement

/-!
# Intervals that cover a stretch exactly once

Half-open intervals of a linear order, and how often a point is covered by a
multiset of them.  A multiset of nonempty intervals that covers the stretch
from `lo` to `hi` exactly once, and nothing else, can be laid out in a row from
`lo` to `hi`: `exists_tiles`.

The items of a ledger need not all have an interval.  An item without one
weighs its `tag`; `exists_tiles_cons` lays out a ledger with a single such item.
-/

namespace Tiling

open Settlement

variable {α κ τ : Type*} [LinearOrder κ]

/-- A nonempty half-open interval. -/
structure Interval (κ : Type*) [LT κ] where
  lo : κ
  hi : κ
  lt : lo < hi

/-- How often a point is covered by the stretch from `lo` up to `hi`. -/
def stretch (lo hi : κ) : κ → ℕ := fun x => if lo ≤ x ∧ x < hi then 1 else 0

@[simp] theorem stretch_self (lo : κ) : stretch lo lo = 0 := by
  funext x
  exact if_neg fun h => absurd (lt_of_le_of_lt h.1 h.2) (lt_irrefl lo)

theorem stretch_eq_one {lo hi x : κ} (h : lo ≤ x) (h' : x < hi) : stretch lo hi x = 1 :=
  if_pos ⟨h, h'⟩

theorem stretch_eq_zero {lo hi x : κ} (h : x < lo ∨ hi ≤ x) : stretch lo hi x = 0 :=
  if_neg fun hx => h.elim (not_lt.2 hx.1) (not_le.2 hx.2)

/-- Adjacent stretches add up. -/
theorem stretch_add {lo mid hi : κ} (h : lo ≤ mid) (h' : mid ≤ hi) :
    stretch lo mid + stretch mid hi = stretch lo hi := by
  funext x
  simp only [Pi.add_apply]
  by_cases hlo : lo ≤ x
  · by_cases hmid : x < mid
    · rw [stretch_eq_one hlo hmid, stretch_eq_zero (Or.inl hmid),
        stretch_eq_one hlo (lt_of_lt_of_le hmid h')]
    · have hmid' : mid ≤ x := not_lt.1 hmid
      rw [stretch_eq_zero (Or.inr hmid'), zero_add]
      by_cases hhi : x < hi
      · rw [stretch_eq_one hmid' hhi, stretch_eq_one hlo hhi]
      · rw [stretch_eq_zero (Or.inr (not_lt.1 hhi)), stretch_eq_zero (Or.inr (not_lt.1 hhi))]
  · have hlo' : x < lo := not_le.1 hlo
    rw [stretch_eq_zero (Or.inl hlo'), stretch_eq_zero (Or.inl hlo'),
      stretch_eq_zero (Or.inl (lt_of_lt_of_le hlo' h))]

/-! ## Laying intervals out in a row -/

/-- The intervals of the listed items follow each other without a gap from `lo` to `hi`. -/
def Tiles (link : α → Option (Interval κ)) : κ → List α → κ → Prop
  | lo, [], hi => lo = hi
  | lo, a :: as, hi => ∃ i, link a = some i ∧ i.lo = lo ∧ Tiles link i.hi as hi

/-- The points an item covers. -/
def cover (link : α → Option (Interval κ)) (a : α) : κ → ℕ :=
  (link a).elim 0 fun i => stretch i.lo i.hi

theorem cover_of_link {link : α → Option (Interval κ)} {a : α} {i : Interval κ}
    (h : link a = some i) : cover link a = stretch i.lo i.hi := by
  rw [cover, h]; rfl

/-- One item covers at most what all of them do. -/
theorem cover_le_weigh (link : α → Option (Interval κ)) {s : Multiset α} {a : α} (ha : a ∈ s)
    (x : κ) : cover link a x ≤ weigh (cover link) s x := by
  obtain ⟨t, rfl⟩ := Multiset.exists_cons_of_mem ha
  rw [weigh_cons, Pi.add_apply]
  exact Nat.le_add_right _ _

/-- A covered point is covered by some item. -/
theorem exists_of_weigh_cover_ne_zero {link : α → Option (Interval κ)} {s : Multiset α} {x : κ}
    (h : weigh (cover link) s x ≠ 0) : ∃ a ∈ s, ∃ i, link a = some i ∧ i.lo ≤ x ∧ x < i.hi := by
  induction s using Multiset.induction_on with
  | empty => exact absurd rfl h
  | cons a s ih =>
      rw [weigh_cons, Pi.add_apply] at h
      by_cases hs : weigh (cover link) s x = 0
      · cases hl : link a with
        | none => rw [hs, cover, hl] at h; exact absurd rfl h
        | some i =>
            rw [hs, cover_of_link hl, add_zero] at h
            by_cases hx : i.lo ≤ x ∧ x < i.hi
            · exact ⟨a, Multiset.mem_cons_self _ _, i, hl, hx⟩
            · exact absurd (if_neg hx) h
      · obtain ⟨b, hb, hrest⟩ := ih hs
        exact ⟨b, Multiset.mem_cons_of_mem hb, hrest⟩

/-- **Tiling.**  Intervals that cover the stretch from `lo` to `hi` once, and
nothing else, can be laid out in a row from `lo` to `hi`. -/
theorem exists_tiles {link : α → Option (Interval κ)} {s : Multiset α} {lo hi : κ}
    (hs : ∀ a ∈ s, (link a).isSome) (h : weigh (cover link) s = stretch lo hi) (hle : lo ≤ hi) :
    ∃ l : List α, (l : Multiset α) = s ∧ Tiles link lo l hi := by
  -- lay out the interval that covers `lo`, then continue from where it ends
  induction hn : s.card generalizing s lo with
  | zero =>
      obtain rfl := Multiset.card_eq_zero.1 hn
      refine ⟨[], rfl, le_antisymm hle (not_lt.1 fun hlt => ?_)⟩
      have hlo := congrFun h lo
      rw [stretch_eq_one le_rfl hlt] at hlo
      exact absurd hlo zero_ne_one
  | succ n ih =>
      -- no item reaches outside the stretch
      have hin : ∀ a ∈ s, ∀ i, link a = some i → lo ≤ i.lo ∧ i.hi ≤ hi := by
        intro a ha i hi'
        have hcov : ∀ x, i.lo ≤ x → x < i.hi → lo ≤ x ∧ x < hi := by
          intro x h1 h2
          have hle := cover_le_weigh link ha x
          rw [cover_of_link hi', stretch_eq_one h1 h2, h] at hle
          by_contra hx
          rw [stretch, if_neg hx] at hle
          exact absurd hle (by norm_num)
        refine ⟨(hcov i.lo le_rfl i.lt).1, not_lt.1 fun hlt => ?_⟩
        have hbelow : i.lo < hi := (hcov i.lo le_rfl i.lt).2
        exact absurd (hcov hi hbelow.le hlt).2 (lt_irrefl hi)
      have hlt : lo < hi := by
        obtain ⟨a, ha⟩ := Multiset.card_pos_iff_exists_mem.1 (by omega : 0 < s.card)
        obtain ⟨i, hi'⟩ := Option.isSome_iff_exists.1 (hs a ha)
        exact lt_of_le_of_lt (hin a ha i hi').1 (lt_of_lt_of_le i.lt (hin a ha i hi').2)
      have hcovered : weigh (cover link) s lo ≠ 0 := by
        rw [h, stretch_eq_one le_rfl hlt]; exact one_ne_zero
      obtain ⟨a, ha, i, hi', hlo, -⟩ := exists_of_weigh_cover_ne_zero hcovered
      have hstart : i.lo = lo := le_antisymm hlo (hin a ha i hi').1
      obtain ⟨t, rfl⟩ := Multiset.exists_cons_of_mem ha
      have ht : weigh (cover link) t = stretch i.hi hi := by
        have hsplit := stretch_add i.lt.le (hin a ha i hi').2
        rw [weigh_cons, cover_of_link hi', ← hstart, ← hsplit] at h
        exact add_left_cancel h
      obtain ⟨l, hl, htiles⟩ := ih (fun b hb => hs b (Multiset.mem_cons_of_mem hb)) ht
        (hin a ha i hi').2 (by rw [Multiset.card_cons] at hn; omega)
      exact ⟨a :: l, by rw [← Multiset.cons_coe, hl], i, hi', hstart, htiles⟩

/-! ## Items without an interval -/

/-- What an item covers, or its tag if it covers nothing. -/
def weight (link : α → Option (Interval κ)) (tag : α → τ) (a : α) : (κ → ℕ) × Multiset τ :=
  match link a with
  | some i => (stretch i.lo i.hi, 0)
  | none => (0, {tag a})

theorem weight_of_link {link : α → Option (Interval κ)} {tag : α → τ} {a : α} {i : Interval κ}
    (h : link a = some i) : weight link tag a = (stretch i.lo i.hi, 0) := by
  rw [weight, h]

theorem weight_of_no_link {link : α → Option (Interval κ)} {tag : α → τ} {a : α}
    (h : link a = none) : weight link tag a = (0, {tag a}) := by
  rw [weight, h]

theorem fst_weigh_weight (link : α → Option (Interval κ)) (tag : α → τ) (s : Multiset α) :
    (weigh (weight link tag) s).1 = weigh (cover link) s := by
  induction s using Multiset.induction_on with
  | empty => rfl
  | cons a s ih =>
      rw [weigh_cons, weigh_cons, Prod.fst_add, ih, weight, cover]
      cases link a <;> rfl

/-- The tags of the items without an interval are all accounted for. -/
theorem tag_mem_weigh {link : α → Option (Interval κ)} (tag : α → τ) {s : Multiset α} {a : α}
    (ha : a ∈ s) (h : link a = none) : tag a ∈ (weigh (weight link tag) s).2 := by
  obtain ⟨t, rfl⟩ := Multiset.exists_cons_of_mem ha
  rw [weigh_cons, weight_of_no_link h, Prod.snd_add]
  exact Multiset.mem_add.2 (Or.inl (Multiset.mem_singleton_self _))

/-- An item without an interval exists for each tag. -/
theorem exists_of_mem_weigh {link : α → Option (Interval κ)} {tag : α → τ} {s : Multiset α} {t : τ}
    (ht : t ∈ (weigh (weight link tag) s).2) : ∃ a ∈ s, link a = none ∧ tag a = t := by
  induction s using Multiset.induction_on with
  | empty => exact absurd ht (Multiset.notMem_zero t)
  | cons a s ih =>
      rw [weigh_cons, Prod.snd_add, Multiset.mem_add] at ht
      rcases ht with ht | ht
      · cases hl : link a with
        | none =>
            rw [weight_of_no_link hl] at ht
            exact ⟨a, Multiset.mem_cons_self _ _, hl, (Multiset.mem_singleton.1 ht).symm⟩
        | some i =>
            rw [weight_of_link hl] at ht
            exact absurd ht (Multiset.notMem_zero t)
      · obtain ⟨b, hb, hrest⟩ := ih ht
        exact ⟨b, Multiset.mem_cons_of_mem hb, hrest⟩

/-- **Tiling with one loose item.**  Of the items all but one lie in a row from
`lo` to `hi`; the other one has the tag `t`. -/
theorem exists_tiles_cons (link : α → Option (Interval κ)) (tag : α → τ) {s : Multiset α}
    {lo hi : κ} {t : τ} (h : weigh (weight link tag) s = (stretch lo hi, {t})) (hle : lo ≤ hi) :
    ∃ (a : α) (l : List α), a ::ₘ (l : Multiset α) = s ∧ link a = none ∧ tag a = t ∧
      Tiles link lo l hi := by
  have hmem : t ∈ (weigh (weight link tag) s).2 := by
    rw [h]; exact Multiset.mem_singleton_self t
  obtain ⟨a, ha, hl, htag⟩ := exists_of_mem_weigh hmem
  obtain ⟨rest, rfl⟩ := Multiset.exists_cons_of_mem ha
  rw [weigh_cons, weight_of_no_link hl, htag] at h
  have hrest : weigh (weight link tag) rest = (stretch lo hi, 0) := by
    refine Prod.ext ?_ ?_
    · simpa using congrArg Prod.fst h
    · have hsnd : {t} + (weigh (weight link tag) rest).2 = {t} + 0 := by
        rw [add_zero]; exact congrArg Prod.snd h
      exact add_left_cancel hsnd
  -- a second loose item would leave a second tag
  have hsome : ∀ b ∈ rest, (link b).isSome := by
    intro b hb
    by_contra hnone
    have hmem := tag_mem_weigh tag hb (Option.not_isSome_iff_eq_none.1 hnone)
    rw [hrest] at hmem
    exact Multiset.notMem_zero _ hmem
  obtain ⟨l, rfl, htiles⟩ := exists_tiles hsome
    (by rw [← fst_weigh_weight link tag, hrest]) hle
  exact ⟨a, l, rfl, hl, htag, htiles⟩

end Tiling
