import Mathlib.Algebra.BigOperators.Group.Multiset.Basic
import Mathlib.Tactic

/-!
# Trails: putting an unordered batch of moves in order

A batch of moves, each of which replaces a state by a later one, is settled
without any order on the moves.  When every move raises a rank by one and the
batch as a whole replaces the state `a` by the state `b`, there is only one
way to read it: as a trail from `a` to `b`.  The rank is what rules out moves
that only justify each other in a circle.

* `exists_trail` — **the moves form a trail** from `a` to `b`.
* `eq_zero_of_balanced` — a batch that replaces nothing has no moves.
* `IsTrail.rank_eq` — the rank of the last state counts the moves.
* `IsTrail.pairwise_ne` — moves that raise something no move lowers start at
  different values of it.
-/

namespace Trail

variable {σ : Type*}

/-- The moves lead from `a` to `b`, each starting where the one before ended. -/
def IsTrail : σ → List (σ × σ) → σ → Prop
  | a, [], b => a = b
  | a, m :: ms, b => m.1 = a ∧ IsTrail m.2 ms b

/-- Every move raises the rank by one. -/
def Climbs (rank : σ → ℤ) (moves : Multiset (σ × σ)) : Prop :=
  ∀ m ∈ moves, rank m.2 = rank m.1 + 1

variable {rank : σ → ℤ} {a b : σ}

@[simp] theorem isTrail_nil : IsTrail a [] b ↔ a = b := Iff.rfl

@[simp] theorem isTrail_cons {m : σ × σ} {ms : List (σ × σ)} :
    IsTrail a (m :: ms) b ↔ m.1 = a ∧ IsTrail m.2 ms b := Iff.rfl

/-! ## The rank along a batch -/

/-- The total rank grows by one for each move. -/
theorem sum_rank_snd {moves : Multiset (σ × σ)} (h : Climbs rank moves) :
    (moves.map fun m => rank m.2).sum = (moves.map fun m => rank m.1).sum + moves.card := by
  induction moves using Multiset.induction_on with
  | empty => simp
  | cons m ms ih =>
      have hm : rank m.2 = rank m.1 + 1 := h m (Multiset.mem_cons_self _ _)
      have hms := ih fun m' hm' => h m' (Multiset.mem_cons_of_mem hm')
      rw [Multiset.map_cons, Multiset.map_cons, Multiset.sum_cons, Multiset.sum_cons, hm, hms,
        Multiset.card_cons]
      push_cast
      ring

/-- **No circles.**  Moves that end where they start, taken together, are no
moves at all. -/
theorem eq_zero_of_balanced {moves : Multiset (σ × σ)} (h : Climbs rank moves)
    (hbal : moves.map Prod.snd = moves.map Prod.fst) : moves = 0 := by
  have hsum := sum_rank_snd h
  have hfst : (moves.map fun m => rank m.1) = (moves.map Prod.fst).map rank := by
    rw [Multiset.map_map]; rfl
  have hsnd : (moves.map fun m => rank m.2) = (moves.map Prod.snd).map rank := by
    rw [Multiset.map_map]; rfl
  rw [hfst, hsnd, hbal] at hsum
  exact Multiset.card_eq_zero.1 (by omega)

/-- **Order.**  Moves that replace `a` by `b` form a trail from `a` to `b`. -/
theorem exists_trail {moves : Multiset (σ × σ)} (h : Climbs rank moves)
    (hbal : a ::ₘ moves.map Prod.snd = b ::ₘ moves.map Prod.fst) :
    ∃ l : List (σ × σ), (l : Multiset (σ × σ)) = moves ∧ IsTrail a l b := by
  -- follow the trail from `a`, taking one move out of the batch at a time
  induction hn : moves.card generalizing a moves with
  | zero =>
      obtain rfl := Multiset.card_eq_zero.1 hn
      exact ⟨[], rfl, by simpa using hbal⟩
  | succ n ih =>
      have ha : a ∈ b ::ₘ moves.map Prod.fst := hbal ▸ Multiset.mem_cons_self _ _
      rcases Multiset.mem_cons.1 ha with rfl | ha
      · -- the trail is already where it has to end
        have hzero := eq_zero_of_balanced h ((Multiset.cons_inj_right a).1 hbal)
        rw [hzero, Multiset.card_zero] at hn
        omega
      · obtain ⟨m, hm, rfl⟩ := Multiset.mem_map.1 ha
        obtain ⟨rest, rfl⟩ := Multiset.exists_cons_of_mem hm
        have hrest : m.2 ::ₘ rest.map Prod.snd = b ::ₘ rest.map Prod.fst := by
          rw [Multiset.map_cons, Multiset.map_cons, Multiset.cons_swap b] at hbal
          exact (Multiset.cons_inj_right m.1).1 hbal
        obtain ⟨l, hl, htrail⟩ := ih (fun m' hm' => h m' (Multiset.mem_cons_of_mem hm')) hrest
          (by rw [Multiset.card_cons] at hn; omega)
        exact ⟨m :: l, by rw [← Multiset.cons_coe, hl], rfl, htrail⟩

/-! ## Along a trail -/

theorem IsTrail.rank_eq {l : List (σ × σ)} (hl : IsTrail a l b)
    (h : Climbs rank (l : Multiset (σ × σ))) : rank b = rank a + l.length := by
  induction l generalizing a with
  | nil => obtain rfl := isTrail_nil.1 hl; simp
  | cons m ms ih =>
      obtain ⟨rfl, hms⟩ := isTrail_cons.1 hl
      have hm : rank m.2 = rank m.1 + 1 := h m (by simp)
      have hb := ih hms fun m' hm' => h m' (by simpa using Or.inr (by simpa using hm'))
      rw [hb, hm, List.length_cons]
      push_cast
      ring

theorem IsTrail.rank_lt {l : List (σ × σ)} (hl : IsTrail a l b)
    (h : Climbs rank (l : Multiset (σ × σ))) : ∀ m ∈ l, rank a < rank m.2 := by
  induction l generalizing a with
  | nil => exact fun m hm => absurd hm List.not_mem_nil
  | cons m ms ih =>
      obtain ⟨rfl, hms⟩ := isTrail_cons.1 hl
      have hm : rank m.2 = rank m.1 + 1 := h m (Multiset.mem_coe.2 List.mem_cons_self)
      have hclimbs : Climbs rank (ms : Multiset (σ × σ)) := fun m' hm' =>
        h m' (Multiset.mem_coe.2 (List.mem_cons_of_mem _ (Multiset.mem_coe.1 hm')))
      intro m' hm'
      rcases List.mem_cons.1 hm' with rfl | hm'
      · omega
      · have hlater := ih hms hclimbs m' hm'
        omega

/-- **A trail visits no place twice.** -/
theorem IsTrail.nodup {l : List (σ × σ)} (hl : IsTrail a l b)
    (h : Climbs rank (l : Multiset (σ × σ))) : (a :: l.map Prod.snd).Nodup := by
  induction l generalizing a with
  | nil => exact List.nodup_singleton a
  | cons m ms ih =>
      obtain ⟨rfl, hms⟩ := isTrail_cons.1 hl
      have hclimbs : Climbs rank (ms : Multiset (σ × σ)) := fun m' hm' =>
        h m' (Multiset.mem_coe.2 (List.mem_cons_of_mem _ (Multiset.mem_coe.1 hm')))
      refine List.nodup_cons.2 ⟨fun hmem => ?_, ih hms hclimbs⟩
      obtain ⟨m', hm', heq⟩ := List.mem_map.1 hmem
      have hlt := hl.rank_lt h m' hm'
      rw [heq] at hlt
      exact lt_irrefl _ hlt

/-- What no move changes is the same at both ends. -/
theorem IsTrail.eq_of_forall {β : Type*} {f : σ → β} {l : List (σ × σ)} (hl : IsTrail a l b)
    (h : ∀ m ∈ l, f m.2 = f m.1) : f b = f a := by
  induction l generalizing a with
  | nil => obtain rfl := isTrail_nil.1 hl; rfl
  | cons m ms ih =>
      obtain ⟨rfl, hms⟩ := isTrail_cons.1 hl
      rw [ih hms fun m' hm' => h m' (List.mem_cons_of_mem _ hm'), h m (List.mem_cons_self ..)]

/-! ## Along a trail on which something only grows -/

section Monotone

variable {β : Type*} [Preorder β] {f : σ → β} {l : List (σ × σ)}

/-- What no move lowers lies everywhere between its values at the two ends. -/
theorem IsTrail.le_of_forall (hl : IsTrail a l b) (h : ∀ m ∈ l, f m.1 ≤ f m.2) :
    f a ≤ f b ∧ ∀ m ∈ l, f a ≤ f m.1 ∧ f m.2 ≤ f b := by
  induction l generalizing a with
  | nil =>
      obtain rfl := isTrail_nil.1 hl
      exact ⟨le_rfl, fun m hm => absurd hm List.not_mem_nil⟩
  | cons m ms ih =>
      obtain ⟨rfl, hms⟩ := isTrail_cons.1 hl
      have hm : f m.1 ≤ f m.2 := h m List.mem_cons_self
      obtain ⟨hends, hall⟩ := ih hms fun m' hm' => h m' (List.mem_cons_of_mem _ hm')
      refine ⟨hm.trans hends, ?_⟩
      intro m' hm'
      rcases List.mem_cons.1 hm' with rfl | hm'
      · exact ⟨le_rfl, hends⟩
      · exact ⟨hm.trans (hall m' hm').1, (hall m' hm').2⟩

/-- Of two moves the later one starts no lower than the earlier one ends. -/
theorem IsTrail.pairwise_le (hl : IsTrail a l b) (h : ∀ m ∈ l, f m.1 ≤ f m.2) :
    l.Pairwise fun m m' => f m.2 ≤ f m'.1 := by
  induction l generalizing a with
  | nil => exact List.Pairwise.nil
  | cons m ms ih =>
      obtain ⟨rfl, hms⟩ := isTrail_cons.1 hl
      have htail : ∀ m' ∈ ms, f m'.1 ≤ f m'.2 := fun m' hm' => h m' (List.mem_cons_of_mem _ hm')
      exact List.Pairwise.cons (fun m' hm' => ((hms.le_of_forall htail).2 m' hm').1) (ih hms htail)

/-- Moves that raise it start at different values, in whatever order they are listed. -/
theorem IsTrail.pairwise_ne (hl : IsTrail a l b) (h : ∀ m ∈ l, f m.1 ≤ f m.2)
    {moves : List (σ × σ)} (hperm : l.Perm moves) :
    moves.Pairwise fun m m' => f m.1 < f m.2 → f m'.1 < f m'.2 → f m.1 ≠ f m'.1 := by
  have hsymm : ∀ {m m' : σ × σ}, (f m.1 < f m.2 → f m'.1 < f m'.2 → f m.1 ≠ f m'.1) →
      f m'.1 < f m'.2 → f m.1 < f m.2 → f m'.1 ≠ f m.1 :=
    fun h hm' hm => (h hm hm').symm
  refine (hperm.pairwise_iff hsymm).1 ((hl.pairwise_le h).imp ?_)
  intro m m' hle hm _
  exact (hm.trans_le hle).ne

end Monotone

end Trail
