import Mathlib.Data.Nat.Notation

/-!
# Loops

A loop goes from one state to the next until it returns.  Nothing says that it does.

* `run` — some rounds of a loop.
* `Returns` — what it returns, after finitely many rounds.
* `returns_of_measure` — **a loop that gets closer to its end with every round returns**.
* `Returns.last` — what the rounds keep holds where it returns.
* `Visits` — the states on its way.
* `not_returns` — a loop that never returns in a round does not return.
* `returns_iff_of_measure` — **when a loop returns whose rounds may do nothing**.
-/

namespace SlotMachine.Loop

variable {σ ρ : Type*} {body : σ → σ ⊕ ρ} {s s' : σ} {r r' : ρ}

/-- Some rounds of a loop.  The body goes on with another state, or returns. -/
def run (body : σ → σ ⊕ ρ) : ℕ → σ → Option ρ
  | 0, _ => none
  | rounds + 1, s =>
      match body s with
      | .inl s' => run body rounds s'
      | .inr r => some r

/-- The loop returns, after finitely many rounds. -/
def Returns (body : σ → σ ⊕ ρ) (s : σ) (r : ρ) : Prop := ∃ rounds, run body rounds s = some r

/-- The loop comes to a state. -/
inductive Visits (body : σ → σ ⊕ ρ) (s : σ) : σ → Prop where
  | start : Visits body s s
  | next {s₁ s₂ : σ} : Visits body s s₁ → body s₁ = .inl s₂ → Visits body s s₂

/-! ## One round -/

theorem run_inl (h : body s = .inl s') (rounds : ℕ) :
    run body (rounds + 1) s = run body rounds s' := by
  rw [run, h]

theorem run_inr (h : body s = .inr r) (rounds : ℕ) : run body (rounds + 1) s = some r := by
  rw [run, h]

theorem returns_inl (h : body s = .inl s') : Returns body s r ↔ Returns body s' r := by
  constructor
  · rintro ⟨rounds, hrun⟩
    cases rounds with
    | zero => cases hrun
    | succ rounds =>
        rw [run_inl h] at hrun
        exact ⟨rounds, hrun⟩
  · rintro ⟨rounds, hrun⟩
    exact ⟨rounds + 1, (run_inl h rounds).trans hrun⟩

theorem returns_inr (h : body s = .inr r') : Returns body s r ↔ r = r' := by
  constructor
  · rintro ⟨rounds, hrun⟩
    cases rounds with
    | zero => cases hrun
    | succ rounds =>
        rw [run_inr h] at hrun
        exact (Option.some.inj hrun).symm
  · rintro rfl
    exact ⟨1, run_inr h 0⟩

/-- A loop comes to where its first round leads, and on from there. -/
theorem Visits.of_inl (h : body s = .inl s') {s₁ : σ} (hvisits : Visits body s' s₁) :
    Visits body s s₁ := by
  induction hvisits with
  | start => exact .next .start h
  | next _ hbody ih => exact ih.next hbody

/-- A loop that comes to another state comes to it from where its first round leads. -/
theorem Visits.cases_inl (h : body s = .inl s') {s₁ : σ} (hvisits : Visits body s s₁) :
    s₁ = s ∨ Visits body s' s₁ := by
  induction hvisits with
  | start => exact Or.inl rfl
  | next _ hbody ih =>
      rcases ih with rfl | ih
      · obtain rfl := Sum.inl.inj (h.symm.trans hbody)
        exact Or.inr .start
      · exact Or.inr (ih.next hbody)

/-- A loop that returns in its first round comes to no other state. -/
theorem Visits.eq_of_inr (h : body s = .inr r) {s₁ : σ} (hvisits : Visits body s s₁) : s₁ = s := by
  induction hvisits with
  | start => rfl
  | next _ hbody ih =>
      subst ih
      rw [h] at hbody
      cases hbody

/-! ## All rounds -/

/-- A loop returns one thing only. -/
theorem Returns.unique (h : Returns body s r) (h' : Returns body s r') : r = r' := by
  obtain ⟨rounds, hrun⟩ := h
  induction rounds generalizing s with
  | zero => cases hrun
  | succ rounds ih =>
      cases hbody : body s with
      | inl s₁ =>
          rw [run_inl hbody] at hrun
          exact ih ((returns_inl hbody).1 h') hrun
      | inr r₁ =>
          rw [run_inr hbody] at hrun
          rw [(returns_inr hbody).1 h', Option.some.inj hrun]

variable {Inv : σ → Prop}

/-- What the rounds keep holds of every state on the way. -/
theorem Visits.keep (hstep : ∀ s s', Inv s → body s = .inl s' → Inv s') (hs : Inv s)
    (h : Visits body s s') : Inv s' := by
  induction h with
  | start => exact hs
  | next _ hbody ih => exact hstep _ _ ih hbody

/-- What the rounds keep holds where the loop returns. -/
theorem Returns.last (hstep : ∀ s s', Inv s → body s = .inl s' → Inv s') (hs : Inv s)
    (h : Returns body s r) : ∃ s', Inv s' ∧ body s' = .inr r := by
  obtain ⟨rounds, hrun⟩ := h
  induction rounds generalizing s with
  | zero => cases hrun
  | succ rounds ih =>
      cases hbody : body s with
      | inl s₁ =>
          rw [run_inl hbody] at hrun
          exact ih (hstep s s₁ hs hbody) hrun
      | inr r₁ =>
          rw [run_inr hbody] at hrun
          obtain rfl := Option.some.inj hrun
          exact ⟨s, hs, hbody⟩

/-- **A loop that gets closer to its end with every round returns.** -/
theorem returns_of_measure (measure : σ → ℕ)
    (hstep : ∀ s s', Inv s → body s = .inl s' → Inv s' ∧ measure s' < measure s) (hs : Inv s) :
    ∃ r, Returns body s r := by
  induction hn : measure s using Nat.strongRecOn generalizing s with
  | ind n ih =>
      subst hn
      cases hbody : body s with
      | inl s' =>
          obtain ⟨hs', hlt⟩ := hstep s s' hs hbody
          obtain ⟨r, hr⟩ := ih _ hlt hs' rfl
          exact ⟨r, (returns_inl hbody).2 hr⟩
      | inr r => exact ⟨r, (returns_inr hbody).2 rfl⟩

/-- A loop that goes on in every round does not return. -/
theorem not_returns (hstep : ∀ s, Inv s → ∃ s', body s = .inl s' ∧ Inv s') (hs : Inv s) :
    ¬ Returns body s r := by
  intro h
  have hkept : ∀ s s', Inv s → body s = .inl s' → Inv s' := by
    intro s s' hs hbody
    obtain ⟨s₁, hbody', hs₁⟩ := hstep s hs
    obtain rfl := Sum.inl.inj (hbody.symm.trans hbody')
    exact hs₁
  obtain ⟨s', hs', hbody⟩ := h.last hkept hs
  obtain ⟨s₁, hbody', -⟩ := hstep s' hs'
  rw [hbody] at hbody'
  cases hbody'

/-- From every state on its way the loop returns the same. -/
theorem Visits.returns_iff (h : Visits body s s') : Returns body s r ↔ Returns body s' r := by
  induction h with
  | start => exact Iff.rfl
  | next _ hbody ih => exact ih.trans (returns_inl hbody)

/-- A loop returns what some round on its way returns. -/
theorem returns_iff_visits : Returns body s r ↔ ∃ s', Visits body s s' ∧ body s' = .inr r := by
  constructor
  · intro h
    exact h.last (fun _ _ hvisits hbody => hvisits.next hbody) .start
  · rintro ⟨s', hvisits, hbody⟩
    exact hvisits.returns_iff.2 ((returns_inr hbody).2 rfl)

/-- **When a loop returns whose rounds get it closer to its end or do nothing**: it never
comes to a round that does nothing. -/
theorem returns_iff_of_measure (measure : σ → ℕ)
    (hstep : ∀ s s', Inv s → body s = .inl s' → Inv s' ∧ (s' = s ∨ measure s' < measure s))
    (hs : Inv s) : (∃ r, Returns body s r) ↔ ∀ s', Visits body s s' → body s' ≠ .inl s' := by
  constructor
  · rintro ⟨r, hr⟩ s' hvisits hstuck
    have hnot : ¬ Returns body s' r := by
      refine not_returns (fun s₁ hs₁ => ?_) (rfl : s' = s')
      subst hs₁
      exact ⟨s', hstuck, rfl⟩
    exact hnot (hvisits.returns_iff.1 hr)
  · intro hmoves
    have hcloser : ∀ s₁ s₂, (Inv s₁ ∧ Visits body s s₁) → body s₁ = .inl s₂ →
        (Inv s₂ ∧ Visits body s s₂) ∧ measure s₂ < measure s₁ := by
      rintro s₁ s₂ ⟨hs₁, hvisits⟩ hbody
      obtain ⟨hs₂, heq | hlt⟩ := hstep s₁ s₂ hs₁ hbody
      · subst heq
        exact absurd hbody (hmoves s₂ hvisits)
      · exact ⟨⟨hs₂, hvisits.next hbody⟩, hlt⟩
    exact returns_of_measure measure hcloser ⟨hs, .start⟩

end SlotMachine.Loop
