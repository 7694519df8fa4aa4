import Mathlib.Data.List.Basic
import Mathlib.Data.Option.Basic
import Mathlib.Tactic

/-!
# A value with a bounded history

A record keeps its current version, and the versions it replaced as long as a
rollback may need them: every version of the last `w` heights, and one older
predecessor.  A rollback to a height drops the versions from there on, and if
the current one is among them restores the last one kept.

* `Retained.push`, `Retained.clear`, `Retained.rollback` — the operations.
* `getLast?_filter_prune` — **pruning is harmless**: below a height within the
  window, a pruned history ends as the whole one does.
* `Keeps` — the invariant that ties a record to the versions that were pushed and
  not rolled back; `Keeps.push`, `Keeps.clear`, `Keeps.rollback`.
* `current_run` — **after pushes and rollbacks in any order, the current version is
  the last one that was not rolled back**.
* `current_changes`, `current_rollback_changes` — after pushes and clears the current
  version is the last change, if that is a push; a rollback restores the last push.
-/

namespace Retention

variable {σ : Type*}

/-- The current version and the retained older ones, oldest first. -/
structure Retained (σ : Type*) where
  current : Option σ
  history : List σ

/-- A record without versions. -/
def Retained.empty : Retained σ := ⟨none, []⟩

variable (height : σ → ℕ)

/-- Keep what is not older than `w` heights, and the last version before that. -/
def prune (w : ℕ) (history : List σ) (peak : ℕ) : List σ :=
  (history.filter fun s => decide (height s < peak - w)).getLast?.toList
    ++ history.filter fun s => decide (peak - w ≤ height s)

namespace Retained

/-- All versions of a record, oldest first. -/
def versions (r : Retained σ) : List σ := r.history ++ r.current.toList

/-- Replace the current version. -/
def push (w : ℕ) (r : Retained σ) (s : σ) (peak : ℕ) : Retained σ :=
  ⟨some s, prune height w r.versions peak⟩

/-- Take the current version away. -/
def clear (w : ℕ) (r : Retained σ) (peak : ℕ) : Retained σ :=
  match r.current with
  | none => r
  | some _ => ⟨none, prune height w r.versions peak⟩

/-- Drop the versions at `fromHeight` and above. -/
def rollback (r : Retained σ) (fromHeight : ℕ) : Retained σ :=
  let kept := r.history.filter fun s => decide (height s < fromHeight)
  ⟨(r.current.filter fun s => decide (height s < fromHeight)).or kept.getLast?, kept⟩

end Retained

/-! ## Sorted histories -/

/-- The heights of the versions do not decrease. -/
def Ordered (l : List σ) : Prop := l.Pairwise fun s t => height s ≤ height t

/-- The versions below a height. -/
def below (n : ℕ) (l : List σ) : List σ := l.filter fun s => decide (height s < n)

variable {height} {w : ℕ}

@[simp] theorem below_nil (n : ℕ) : below height n [] = [] := rfl

@[simp] theorem below_append (n : ℕ) (l l' : List σ) :
    below height n (l ++ l') = below height n l ++ below height n l' := List.filter_append ..

theorem below_below (m n : ℕ) (l : List σ) :
    below height m (below height n l) = below height (min m n) l := by
  unfold below
  rw [List.filter_filter]
  refine List.filter_congr ?_
  intro s _
  simp

theorem mem_below {n : ℕ} {l : List σ} {s : σ} :
    s ∈ below height n l ↔ s ∈ l ∧ height s < n := by
  simp [below]

theorem below_eq_self {n : ℕ} {l : List σ} (h : ∀ s ∈ l, height s < n) : below height n l = l := by
  unfold below
  rw [List.filter_eq_self]
  intro s hs
  exact decide_eq_true (h s hs)

theorem Ordered.below {l : List σ} (h : Ordered height l) (n : ℕ) :
    Ordered height (below height n l) := List.Pairwise.filter _ h

/-- A sorted list splits at any height. -/
theorem Ordered.split {l : List σ} (h : Ordered height l) (n : ℕ) :
    l = Retention.below height n l ++ l.filter fun s => decide (n ≤ height s) := by
  induction l with
  | nil => rfl
  | cons s l ih =>
      have hl : Ordered height l := (List.pairwise_cons.1 h).2
      by_cases hs : height s < n
      · have hkeep : Retention.below height n (s :: l) = s :: Retention.below height n l := by
          simp [Retention.below, hs]
        have hdrop : (s :: l).filter (fun t => decide (n ≤ height t))
            = l.filter fun t => decide (n ≤ height t) := by
          simp [hs]
        rw [hkeep, hdrop, List.cons_append, ← ih hl]
      · -- everything after `s` is at `n` or above as well
        have hall : ∀ t ∈ s :: l, n ≤ height t := by
          intro t ht
          rcases List.mem_cons.1 ht with rfl | ht
          · omega
          · have hle := (List.pairwise_cons.1 h).1 t ht
            omega
        have hbelow : Retention.below height n (s :: l) = [] := by
          unfold Retention.below
          rw [List.filter_eq_nil_iff]
          intro t ht
          have hle := hall t ht
          simp
          omega
        have habove : (s :: l).filter (fun t => decide (n ≤ height t)) = s :: l := by
          rw [List.filter_eq_self]
          intro t ht
          exact decide_eq_true (hall t ht)
        rw [hbelow, habove, List.nil_append]

/-- A version that is repeated at the end changes nothing. -/
theorem getLast?_below_append_getLast? (n : ℕ) (l : List σ) :
    (below height n (l ++ l.getLast?.toList)).getLast? = (below height n l).getLast? := by
  rcases List.eq_nil_or_concat l with rfl | ⟨l, s, rfl⟩
  · rfl
  · by_cases hs : height s < n
    · simp [below, hs]
    · simp [below, hs]

/-- **Pruning is harmless.**  Below a height that is within the window, a pruned
history ends as the whole one does. -/
theorem getLast?_filter_prune {l : List σ} (h : Ordered height l) {peak n : ℕ}
    (hn : peak ≤ n + w) :
    (below height n (prune height w l peak)).getLast? = (below height n l).getLast? := by
  have hold : ∀ s ∈ (below height (peak - w) l).getLast?.toList, height s < n := by
    intro s hs
    have hmem := List.mem_of_getLast? (Option.mem_toList.1 hs)
    have hlt := (mem_below.1 hmem).2
    omega
  have hinitial : below height n (below height (peak - w) l) = below height (peak - w) l := by
    rw [below_below, Nat.min_eq_right (by omega)]
  have hsplit : below height n l = below height (peak - w) l
      ++ below height n (l.filter fun s => decide (peak - w ≤ height s)) := by
    conv_lhs => rw [h.split (peak - w)]
    rw [below_append, hinitial]
  have hpruned : below height n (prune height w l peak)
      = (below height (peak - w) l).getLast?.toList
        ++ below height n (l.filter fun s => decide (peak - w ≤ height s)) := by
    unfold prune
    rw [below_append, ← below, below_eq_self hold]
  rw [hpruned, hsplit]
  generalize below height n (l.filter fun s => decide (peak - w ≤ height s)) = recent
  rcases List.eq_nil_or_concat recent with rfl | ⟨recent, s, rfl⟩
  · rw [List.append_nil, List.append_nil]
    cases (below height (peak - w) l).getLast? <;> rfl
  · simp

theorem mem_of_mem_prune {l : List σ} {peak : ℕ} {s : σ} (h : s ∈ prune height w l peak) :
    s ∈ l := by
  unfold prune at h
  rcases List.mem_append.1 h with h | h
  · exact (List.mem_filter.1 (List.mem_of_getLast? (Option.mem_toList.1 h))).1
  · exact (List.mem_filter.1 h).1

theorem Ordered.prune {l : List σ} (h : Ordered height l) (peak : ℕ) :
    Ordered height (Retention.prune height w l peak) := by
  unfold Retention.prune
  refine List.pairwise_append.2 ⟨?_, List.Pairwise.filter _ h, ?_⟩
  · cases (l.filter fun s => decide (height s < peak - w)).getLast? with
    | none => exact List.Pairwise.nil
    | some s => exact List.pairwise_singleton ..
  · intro s hs t ht
    have hlow := (List.mem_filter.1 (List.mem_of_getLast? (Option.mem_toList.1 hs))).2
    have hhigh := (List.mem_filter.1 ht).2
    simp only [decide_eq_true_eq] at hlow hhigh
    omega

/-! ## Versions after an operation -/

variable (height) in
/-- The versions after a rollback are those below, the last one maybe twice. -/
theorem Retained.versions_rollback (r : Retained σ) (n : ℕ) :
    (r.rollback height n).versions = below height n r.versions ∨
      (r.rollback height n).versions
        = below height n r.versions ++ (below height n r.versions).getLast?.toList := by
  obtain ⟨current, history⟩ := r
  cases current with
  | none =>
      right
      simp [Retained.versions, Retained.rollback, below]
  | some s =>
      by_cases hs : height s < n
      · left
        simp [Retained.versions, Retained.rollback, below, hs, Option.filter]
      · right
        simp [Retained.versions, Retained.rollback, below, hs, Option.filter]

theorem Retained.mem_of_mem_versions_rollback {r : Retained σ} {n : ℕ} {s : σ}
    (h : s ∈ (r.rollback height n).versions) : s ∈ r.versions := by
  have hversions : (r.rollback height n).versions = below height n r.versions ∨
      (r.rollback height n).versions
        = below height n r.versions ++ (below height n r.versions).getLast?.toList :=
    Retained.versions_rollback height r n
  rcases hversions with heq | heq
  · rw [heq] at h
    exact (mem_below.1 h).1
  · rw [heq, List.mem_append] at h
    rcases h with h | h
    · exact (mem_below.1 h).1
    · exact (mem_below.1 (List.mem_of_getLast? (Option.mem_toList.1 h))).1

theorem Retained.mem_of_mem_versions_push {r : Retained σ} {s t : σ} {peak : ℕ}
    (h : t ∈ (r.push height w s peak).versions) : t ∈ r.versions ∨ t = s := by
  rcases List.mem_append.1 h with h | h
  · exact Or.inl (mem_of_mem_prune h)
  · exact Or.inr (Option.some.inj (Option.mem_toList.1 h)).symm

/-- **A rollback finds the last version below.** -/
theorem Retained.current_rollback (r : Retained σ) (n : ℕ) :
    (r.rollback height n).current = (below height n r.versions).getLast? := by
  obtain ⟨current, history⟩ := r
  cases current with
  | none => simp [Retained.versions, Retained.rollback, below]
  | some s =>
      by_cases hs : height s < n
      · simp [Retained.versions, Retained.rollback, below, hs, Option.filter]
      · simp [Retained.versions, Retained.rollback, below, hs, Option.filter]

theorem Retained.versions_clear_of_none {r : Retained σ} (h : r.current = none) (peak : ℕ) :
    r.clear height w peak = r := by
  unfold Retained.clear
  rw [h]

theorem Retained.versions_clear_of_some {r : Retained σ} {s : σ} (h : r.current = some s)
    (peak : ℕ) : r.clear height w peak = ⟨none, prune height w r.versions peak⟩ := by
  unfold Retained.clear
  rw [h]

/-! ## The invariant -/

/-- A record keeps enough of the versions `pushed`: a rollback within the window
of `top` finds the last of them. -/
structure Keeps (height : σ → ℕ) (w top : ℕ) (pushed : List σ) (r : Retained σ) : Prop where
  ordered : Ordered height r.versions
  mem_pushed : ∀ s ∈ r.versions, s ∈ pushed
  restores : ∀ n, top ≤ n + w →
    (below height n r.versions).getLast? = (below height n pushed).getLast?

theorem keeps_empty (top : ℕ) : Keeps height w top [] Retained.empty where
  ordered := List.Pairwise.nil
  mem_pushed := fun _ hs => hs
  restores := fun _ _ => rfl

/-- A record keeps its own versions. -/
theorem keeps_versions {r : Retained σ} (h : Ordered height r.versions) (top : ℕ) :
    Keeps height w top r.versions r where
  ordered := h
  mem_pushed := fun _ hs => hs
  restores := fun _ _ => rfl

section

variable {top : ℕ} {pushed : List σ} {r : Retained σ}

/-- A later height leaves less to restore. -/
theorem Keeps.mono (hr : Keeps height w top pushed r) {top' : ℕ} (h : top ≤ top') :
    Keeps height w top' pushed r where
  ordered := hr.ordered
  mem_pushed := hr.mem_pushed
  restores := fun n hn => hr.restores n (h.trans hn)

/-- A version that is not below any of the others is pushed. -/
theorem Keeps.push (hr : Keeps height w top pushed r) {s : σ}
    (hs : ∀ t ∈ pushed, height t ≤ height s) :
    Keeps height w (max top (height s)) (pushed ++ [s]) (r.push height w s (height s)) where
  ordered := by
    refine List.pairwise_append.2 ⟨hr.ordered.prune _, List.pairwise_singleton .., ?_⟩
    intro t ht u hu
    rw [List.mem_singleton.1 hu]
    exact hs t (hr.mem_pushed t (mem_of_mem_prune ht))
  mem_pushed := by
    intro t ht
    rcases List.mem_append.1 ht with ht | ht
    · exact List.mem_append_left _ (hr.mem_pushed t (mem_of_mem_prune ht))
    · exact List.mem_append_right _ ht
  restores := by
    intro n hn
    show (below height n (prune height w r.versions (height s) ++ [s])).getLast? = _
    by_cases hlt : height s < n
    · have hlast : below height n [s] = [s] := by simp [below, hlt]
      rw [below_append, below_append, hlast, List.getLast?_concat, List.getLast?_concat]
    · have hlast : below height n [s] = [] := by simp [below, hlt]
      rw [below_append, below_append, hlast, List.append_nil, List.append_nil,
        getLast?_filter_prune hr.ordered (by omega), hr.restores n (by omega)]

/-- The current version is taken away. -/
theorem Keeps.clear (hr : Keeps height w top pushed r) (peak : ℕ) :
    Keeps height w (max top peak) pushed (r.clear height w peak) := by
  cases hc : r.current with
  | none =>
      rw [Retained.versions_clear_of_none hc]
      exact hr.mono (le_max_left ..)
  | some s =>
      rw [Retained.versions_clear_of_some hc]
      have hversions : (Retained.mk none (prune height w r.versions peak)).versions
          = prune height w r.versions peak := List.append_nil _
      refine ⟨?_, ?_, ?_⟩
      · rw [hversions]
        exact hr.ordered.prune peak
      · rw [hversions]
        intro t ht
        exact hr.mem_pushed t (mem_of_mem_prune ht)
      · intro n hn
        rw [hversions, getLast?_filter_prune hr.ordered (by omega), hr.restores n (by omega)]

/-- A rollback within the window. -/
theorem Keeps.rollback (hr : Keeps height w top pushed r) {n : ℕ} (hn : top ≤ n + w) :
    Keeps height w top (below height n pushed) (r.rollback height n) where
  ordered := by
    rcases r.versions_rollback height n with h | h
    · rw [h]
      exact hr.ordered.below n
    · rw [h]
      refine List.pairwise_append.2 ⟨hr.ordered.below n, ?_, ?_⟩
      · cases (below height n r.versions).getLast? with
        | none => exact List.Pairwise.nil
        | some s => exact List.pairwise_singleton ..
      · intro s hs t ht
        -- `t` is the last version kept
        have hlast := Option.mem_toList.1 ht
        obtain ⟨l, hl⟩ := List.getLast?_eq_some_iff.1 hlast
        have hordered := hr.ordered.below n
        rw [hl] at hs hordered
        rcases List.mem_append.1 hs with hs | hs
        · exact (List.pairwise_append.1 hordered).2.2 s hs t (List.mem_singleton_self t)
        · rw [List.mem_singleton.1 hs]
  mem_pushed := by
    intro s hs
    have hmem : s ∈ below height n r.versions := by
      rcases r.versions_rollback height n with h | h
      · rwa [h] at hs
      · rw [h] at hs
        rcases List.mem_append.1 hs with hs | hs
        · exact hs
        · exact List.mem_of_getLast? (Option.mem_toList.1 hs)
    exact mem_below.2 ⟨hr.mem_pushed s (mem_below.1 hmem).1, (mem_below.1 hmem).2⟩
  restores := by
    intro m hm
    have hmin : top ≤ min m n + w := by omega
    have hkept : (below height m (below height n r.versions)).getLast?
        = (below height m (below height n pushed)).getLast? := by
      rw [below_below, below_below, hr.restores _ hmin]
    rcases r.versions_rollback height n with h | h
    · rw [h, hkept]
    · rw [h, getLast?_below_append_getLast?, hkept]

/-- What a rollback within the window restores. -/
theorem Keeps.current_rollback (hr : Keeps height w top pushed r) {n : ℕ} (hn : top ≤ n + w) :
    (r.rollback height n).current = (below height n pushed).getLast? := by
  rw [r.current_rollback, hr.restores n hn]

end

/-! ## Pushes and rollbacks in any order -/

/-- A version is pushed, or the heights from `n` on are rolled back. -/
inductive Op (σ : Type*) where
  | push (s : σ)
  | rollback (n : ℕ)

/-- One operation, where a push prunes at the height of its version. -/
def Retained.apply (height : σ → ℕ) (w : ℕ) (r : Retained σ) : Op σ → Retained σ
  | .push s => r.push height w s (height s)
  | .rollback n => r.rollback height n

/-- All operations, the first one first. -/
def Retained.run (height : σ → ℕ) (w : ℕ) (r : Retained σ) (ops : List (Op σ)) : Retained σ :=
  ops.foldl (Retained.apply height w) r

/-- **A run keeps no version but what was pushed.** -/
theorem Retained.mem_of_mem_versions_run {height : σ → ℕ} {w : ℕ} {r : Retained σ}
    {ops : List (Op σ)} {s : σ} (h : s ∈ (r.run height w ops).versions) :
    s ∈ r.versions ∨ .push s ∈ ops := by
  induction ops generalizing r with
  | nil => exact Or.inl h
  | cons op ops ih =>
      rcases ih (r := r.apply height w op) h with hrest | hmem
      · cases op with
        | push t =>
            rcases mem_of_mem_versions_push hrest with hr | rfl
            · exact Or.inl hr
            · exact Or.inr List.mem_cons_self
        | rollback n => exact Or.inl (mem_of_mem_versions_rollback hrest)
      · exact Or.inr (List.mem_cons_of_mem _ hmem)

/-- The operation does not orphan the version. -/
def Op.Spares (height : σ → ℕ) (s : σ) : Op σ → Prop
  | .push _ => True
  | .rollback n => height s < n

instance (s : σ) : (op : Op σ) → Decidable (op.Spares height s)
  | .push _ => isTrue trivial
  | .rollback n => inferInstanceAs (Decidable (height s < n))

@[simp] theorem spares_push {s t : σ} : (Op.push t).Spares height s ↔ True := Iff.rfl

@[simp] theorem spares_rollback {s : σ} {n : ℕ} :
    (Op.rollback n).Spares height s ↔ height s < n := Iff.rfl

/-- The versions that no later rollback orphans. -/
def survivors (height : σ → ℕ) : List (Op σ) → List σ
  | [] => []
  | .push s :: ops =>
      if ∀ op ∈ ops, op.Spares height s then s :: survivors height ops else survivors height ops
  | .rollback _ :: ops => survivors height ops

/-- Heights do not decrease between rollbacks, start again at the height rolled
back to, and no rollback goes below the window of the highest version so far. -/
def Admissible (height : σ → ℕ) (w : ℕ) : (top low : ℕ) → List (Op σ) → Prop
  | _, _, [] => True
  | top, low, .push s :: ops =>
      low ≤ height s ∧ Admissible height w (max top (height s)) (height s) ops
  | top, _, .rollback n :: ops => top ≤ n + w ∧ Admissible height w top n ops

instance decidableAdmissible (height : σ → ℕ) (w : ℕ) :
    (top low : ℕ) → (ops : List (Op σ)) → Decidable (Admissible height w top low ops)
  | _, _, [] => isTrue trivial
  | top, low, .push s :: ops =>
      have := decidableAdmissible height w (max top (height s)) (height s) ops
      inferInstanceAs (Decidable (low ≤ height s ∧ _))
  | top, _, .rollback n :: ops =>
      have := decidableAdmissible height w top n ops
      inferInstanceAs (Decidable (top ≤ n + w ∧ _))

/-- The versions that are left, one operation after the other. -/
def leave (height : σ → ℕ) (pushed : List σ) : Op σ → List σ
  | .push s => pushed ++ [s]
  | .rollback n => below height n pushed

/-- What is left in the end are the survivors. -/
theorem foldl_leave (ops : List (Op σ)) (pushed : List σ) :
    ops.foldl (leave height) pushed
      = (pushed.filter fun s => decide (∀ op ∈ ops, op.Spares height s))
        ++ survivors height ops := by
  induction ops generalizing pushed with
  | nil => simp [survivors]
  | cons op ops ih =>
      rw [List.foldl_cons, ih]
      cases op with
      | push s =>
          have hfilter : ∀ l : List σ,
              (l.filter fun t => decide (∀ op ∈ Op.push s :: ops, op.Spares height t))
                = l.filter fun t => decide (∀ op ∈ ops, op.Spares height t) := by
            intro l
            refine List.filter_congr ?_
            intro t _
            simp
          rw [hfilter]
          show ((pushed ++ [s]).filter _) ++ _ = _ ++ if _ then _ else _
          by_cases hs : ∀ op ∈ ops, op.Spares height s
          · have hkeep : [s].filter (fun t => decide (∀ op ∈ ops, op.Spares height t)) = [s] :=
              List.filter_cons_of_pos (decide_eq_true hs)
            rw [if_pos hs, List.filter_append, List.append_assoc, hkeep]
            rfl
          · have hdrop : [s].filter (fun t => decide (∀ op ∈ ops, op.Spares height t)) = [] :=
              List.filter_cons_of_neg (by rw [decide_eq_true_eq]; exact hs)
            rw [if_neg hs, List.filter_append, hdrop, List.append_nil]
      | rollback n =>
          show ((below height n pushed).filter _) ++ _ = _ ++ survivors height ops
          unfold below
          rw [List.filter_filter]
          refine congrArg (· ++ survivors height ops) (List.filter_congr ?_)
          intro t _
          simp [Bool.and_comm]

/-- A record that keeps enough stays right through admissible operations. -/
theorem keeps_run {ops : List (Op σ)} {top low : ℕ} {pushed : List σ} {r : Retained σ}
    (hr : Keeps height w top pushed r) (hcurrent : r.current = pushed.getLast?)
    (hlow : ∀ s ∈ pushed, height s ≤ low) (hops : Admissible height w top low ops) :
    (r.run height w ops).current = (ops.foldl (leave height) pushed).getLast? := by
  induction ops generalizing top low pushed r with
  | nil => exact hcurrent
  | cons op ops ih =>
      cases op with
      | push s =>
          obtain ⟨hs, hrest⟩ := hops
          have hpushed : ∀ t ∈ pushed, height t ≤ height s := fun t ht => (hlow t ht).trans hs
          refine ih (hr.push hpushed) ?_ ?_ hrest
          · show some s = (pushed ++ [s]).getLast?
            rw [List.getLast?_concat]
          · intro t ht
            rcases List.mem_append.1 ht with ht | ht
            · exact hpushed t ht
            · rw [List.mem_singleton.1 ht]
      | rollback n =>
          obtain ⟨hn, hrest⟩ := hops
          refine ih (hr.rollback hn) (hr.current_rollback hn) ?_ hrest
          intro t ht
          exact (mem_below.1 ht).2.le

/-- **Rollback is prefix replay.**  After pushes and rollbacks in any order and
number the current version is the last one that no later rollback orphaned. -/
theorem current_run {ops : List (Op σ)} (hops : Admissible height w 0 0 ops) :
    (Retained.empty.run height w ops).current = (survivors height ops).getLast? := by
  rw [keeps_run (keeps_empty 0) rfl (fun _ hs => absurd hs List.not_mem_nil) hops, foldl_leave]
  rfl

/-! ## Pushes and clears in any order -/

/-- A version is pushed, or the current one is taken away at a height. -/
inductive Change (σ : Type*) where
  | push (s : σ)
  | clear (n : ℕ)

/-- The height of a change. -/
def Change.heightOf (height : σ → ℕ) : Change σ → ℕ
  | .push s => height s
  | .clear n => n

/-- The version that is pushed, if any. -/
def Change.pushed : Change σ → Option σ
  | .push s => some s
  | .clear _ => none

/-- One change, pruning at its height. -/
def Retained.change (height : σ → ℕ) (w : ℕ) (r : Retained σ) : Change σ → Retained σ
  | .push s => r.push height w s (height s)
  | .clear n => r.clear height w n

/-- All changes, the first one first. -/
def Retained.changes (height : σ → ℕ) (w : ℕ) (r : Retained σ) (l : List (Change σ)) :
    Retained σ :=
  l.foldl (Retained.change height w) r

/-- The heights of the changes do not decrease. -/
def Chronological (height : σ → ℕ) (l : List (Change σ)) : Prop :=
  l.Pairwise fun c d => c.heightOf height ≤ d.heightOf height

instance (height : σ → ℕ) (l : List (Change σ)) : Decidable (Chronological height l) :=
  inferInstanceAs (Decidable (l.Pairwise _))

/-- The changes below a height. -/
def changesBelow (height : σ → ℕ) (n : ℕ) (l : List (Change σ)) : List (Change σ) :=
  l.filter fun c => decide (c.heightOf height < n)

theorem Retained.current_clear (r : Retained σ) (n : ℕ) : (r.clear height w n).current = none := by
  unfold Retained.clear
  cases hc : r.current with
  | none => exact hc
  | some s => rfl

/-- **The current version is the last change, if that is a push.** -/
theorem current_changes (l : List (Change σ)) :
    (Retained.empty.changes height w l).current = l.getLast?.bind Change.pushed := by
  rcases List.eq_nil_or_concat l with rfl | ⟨l, c, rfl⟩
  · rfl
  · unfold Retained.changes
    rw [List.concat_eq_append, List.foldl_append, List.getLast?_append]
    cases c with
    | push s => rfl
    | clear n => exact Retained.current_clear ..

theorem keeps_changes (l : List (Change σ)) (hl : Chronological height l) {top : ℕ}
    (htop : ∀ c ∈ l, c.heightOf height ≤ top) :
    Keeps height w top (l.filterMap Change.pushed) (Retained.empty.changes height w l) := by
  induction l using List.reverseRecOn generalizing top with
  | nil => exact keeps_empty top
  | append_singleton l c ih =>
      obtain ⟨hinitial, _, hlast⟩ := List.pairwise_append.1 hl
      have hle : ∀ d ∈ l, d.heightOf height ≤ c.heightOf height := by
        intro d hd
        exact hlast d hd c (List.mem_singleton_self c)
      have hc : c.heightOf height ≤ top :=
        htop c (List.mem_append_right _ (List.mem_singleton_self c))
      have hkeeps := ih hinitial hle
      unfold Retained.changes
      rw [List.foldl_append, List.filterMap_append]
      cases c with
      | push s =>
          refine (hkeeps.push ?_).mono (by simpa [Change.heightOf] using hc)
          intro t ht
          obtain ⟨d, hd, hpushed⟩ := List.mem_filterMap.1 ht
          cases d with
          | push u =>
              have hu : u = t := Option.some.inj hpushed
              rw [← hu]
              exact hle _ hd
          | clear n => exact absurd hpushed (by simp [Change.pushed])
      | clear n =>
          show Keeps height w top (_ ++ []) _
          rw [List.append_nil]
          exact (hkeeps.clear n).mono (by simpa [Change.heightOf] using hc)

/-- **A rollback restores the last version pushed below its height**, whether or not
it was taken away there. -/
theorem current_rollback_changes {l : List (Change σ)} (hl : Chronological height l) {n : ℕ}
    (hn : ∀ c ∈ l, c.heightOf height ≤ n + w) :
    ((Retained.empty.changes height w l).rollback height n).current
      = ((changesBelow height n l).filterMap Change.pushed).getLast? := by
  rw [(keeps_changes l hl hn).current_rollback le_rfl]
  congr 1
  unfold below changesBelow
  rw [List.filter_filterMap, List.filterMap_filter]
  refine List.filterMap_congr ?_
  intro c _
  cases c with
  | push s =>
      by_cases hs : height s < n
      · simp [Change.pushed, Change.heightOf, hs]
      · simp [Change.pushed, Change.heightOf, hs]
        omega
  | clear m => simp [Change.pushed]

/-- **A rollback is a replay of what is below exactly if nothing was pushed there, or
the last change there is a push.** -/
theorem current_rollback_eq_replay_iff {l : List (Change σ)} (hl : Chronological height l) {n : ℕ}
    (hn : ∀ c ∈ l, c.heightOf height ≤ n + w) :
    ((Retained.empty.changes height w l).rollback height n).current
        = (Retained.empty.changes height w (changesBelow height n l)).current ↔
      (∀ c ∈ changesBelow height n l, c.pushed = none) ∨
        ∃ c ∈ (changesBelow height n l).getLast?, c.pushed.isSome := by
  rw [current_rollback_changes hl hn, current_changes]
  generalize changesBelow height n l = prior
  rcases List.eq_nil_or_concat prior with rfl | ⟨prior, c, rfl⟩
  · simp
  · rw [List.concat_eq_append, List.filterMap_append, List.getLast?_concat]
    cases hc : c.pushed with
    | some s => simp [hc]
    | none =>
        have hlast : [c].filterMap Change.pushed = [] := by simp [hc]
        rw [hlast, List.append_nil, Option.bind_some, hc, List.getLast?_eq_none_iff,
          List.filterMap_eq_nil_iff]
        simp [hc, or_imp, forall_and]

end Retention
