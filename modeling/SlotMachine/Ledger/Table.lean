import Mathlib.Data.List.MinMax
import Mathlib.Tactic

/-!
# Tables

A table of a relational store, as the list of its rows in the order in which they
were inserted.

* `update` — `UPDATE … SET … WHERE …`.
* `upsert` — `INSERT … ON CONFLICT (key) DO UPDATE …`.
* `forall_update`, `forall_upsert` — what all rows satisfy.
* `exists_update`, `exists_upsert` — the rows there are.
* `greatestBelow`, `leastAbove` — `ORDER BY … LIMIT 1`, on one side of a key.
* `Represents` — a table with a primary key is a map; `Represents.upsert`, `Represents.delete`,
  `Represents.join` — what is done to it, and what is found by its key.
-/

namespace Table

variable {ρ κ : Type*}

/-- Change the rows that satisfy `p`. -/
def update (p : ρ → Bool) (f : ρ → ρ) (t : List ρ) : List ρ := t.map fun r => if p r then f r else r

section

variable [DecidableEq κ]

/-- Insert a row, or change the row that has its key. -/
def upsert (key : ρ → κ) (f : ρ → ρ) (row : ρ) (t : List ρ) : List ρ :=
  if ∃ r ∈ t, key r = key row then update (fun r => key r = key row) f t else t ++ [row]

end

variable {p : ρ → Bool} {f : ρ → ρ} {t : List ρ} {P : ρ → Prop} {row : ρ}

/-! ## Updates -/

theorem mem_update {r : ρ} (h : r ∈ update p f t) :
    ∃ r₀ ∈ t, (p r₀ = true ∧ r = f r₀) ∨ (p r₀ = false ∧ r = r₀) := by
  obtain ⟨r₀, hr₀, heq⟩ := List.mem_map.1 h
  by_cases hp : p r₀ = true
  · exact ⟨r₀, hr₀, Or.inl ⟨hp, by rw [← heq, if_pos hp]⟩⟩
  · exact ⟨r₀, hr₀, Or.inr ⟨by simpa using hp, by rw [← heq, if_neg hp]⟩⟩

theorem update_mem_of_pos {r : ρ} (h : r ∈ t) (hp : p r = true) : f r ∈ update p f t :=
  List.mem_map.2 ⟨r, h, if_pos hp⟩

theorem update_mem_of_neg {r : ρ} (h : r ∈ t) (hp : p r = false) : r ∈ update p f t :=
  List.mem_map.2 ⟨r, h, if_neg (by simp [hp])⟩

/-- What all rows satisfy, the changed ones and the others. -/
theorem forall_update (h : ∀ r ∈ t, p r = false → P r) (hf : ∀ r ∈ t, p r = true → P (f r)) :
    ∀ r ∈ update p f t, P r := by
  intro r hr
  obtain ⟨r₀, hr₀, ⟨hp, rfl⟩ | ⟨hp, rfl⟩⟩ := mem_update hr
  · exact hf r₀ hr₀ hp
  · exact h r hr₀ hp

/-- A row is still there, if the change keeps what is asked of it. -/
theorem exists_update (h : ∃ r ∈ t, P r) (hf : ∀ r, P r → P (f r)) : ∃ r ∈ update p f t, P r := by
  obtain ⟨r, hr, hP⟩ := h
  cases hp : p r with
  | true => exact ⟨f r, update_mem_of_pos hr hp, hf r hP⟩
  | false => exact ⟨r, update_mem_of_neg hr hp, hP⟩

/-! ## Insertions -/

section

variable [DecidableEq κ] {key : ρ → κ}

theorem forall_upsert (h : ∀ r ∈ t, key r ≠ key row → P r)
    (hf : ∀ r ∈ t, key r = key row → P (f r)) (hrow : P row) : ∀ r ∈ upsert key f row t, P r := by
  unfold upsert
  split
  · exact forall_update (fun r hr hp => h r hr (of_decide_eq_false hp))
      fun r hr hp => hf r hr (of_decide_eq_true hp)
  · next hnone =>
      intro r hr
      rcases List.mem_append.1 hr with hr | hr
      · exact h r hr fun hkey => hnone ⟨r, hr, hkey⟩
      · exact List.mem_singleton.1 hr ▸ hrow

/-- The inserted row is there, or the one that has its key. -/
theorem exists_upsert (hf : ∀ r ∈ t, key r = key row → P (f r)) (hrow : P row) :
    ∃ r ∈ upsert key f row t, P r := by
  unfold upsert
  split
  · next hkey =>
      obtain ⟨r, hr, hkey⟩ := hkey
      exact ⟨f r, update_mem_of_pos hr (decide_eq_true hkey), hf r hr hkey⟩
  · exact ⟨row, List.mem_append_right _ (List.mem_singleton_self row), hrow⟩

theorem exists_upsert_of_exists (h : ∃ r ∈ t, P r) (hf : ∀ r, P r → P (f r)) :
    ∃ r ∈ upsert key f row t, P r := by
  unfold upsert
  split
  · exact exists_update h hf
  · obtain ⟨r, hr, hP⟩ := h
    exact ⟨r, List.mem_append_left _ hr, hP⟩

end

/-! ## The row next to a key -/

section

variable [LinearOrder κ] {key : ρ → κ} {k : κ} {r : ρ}

/-- The row with the greatest key below `k`. -/
def greatestBelow (key : ρ → κ) (k : κ) (t : List ρ) : Option ρ :=
  (t.filter fun r => key r < k).argmax key

/-- The row with the least key above `k`. -/
def leastAbove (key : ρ → κ) (k : κ) (t : List ρ) : Option ρ :=
  (t.filter fun r => k < key r).argmin key

theorem greatestBelow_spec (h : r ∈ t) (hr : key r < k) :
    ∃ r' ∈ t, greatestBelow key k t = some r' ∧ key r' < k ∧ ∀ s ∈ t, key s < k → key s ≤ key r' := by
  have hmem : ∀ s, s ∈ (t.filter fun r => key r < k) ↔ s ∈ t ∧ key s < k := by simp
  cases hbelow : greatestBelow key k t with
  | none =>
      have hnil := List.argmax_eq_none.1 hbelow
      exact absurd ((hmem r).2 ⟨h, hr⟩) (by simp [hnil])
  | some r' =>
      obtain ⟨hr', hlt⟩ := (hmem r').1 (List.argmax_mem hbelow)
      exact ⟨r', hr', rfl, hlt, fun s hs hlt => List.le_of_mem_argmax ((hmem s).2 ⟨hs, hlt⟩) hbelow⟩

theorem leastAbove_spec (h : r ∈ t) (hr : k < key r) :
    ∃ r' ∈ t, leastAbove key k t = some r' ∧ k < key r' ∧ ∀ s ∈ t, k < key s → key r' ≤ key s := by
  have hmem : ∀ s, s ∈ (t.filter fun r => k < key r) ↔ s ∈ t ∧ k < key s := by simp
  cases habove : leastAbove key k t with
  | none =>
      have hnil := List.argmin_eq_none.1 habove
      exact absurd ((hmem r).2 ⟨h, hr⟩) (by simp [hnil])
  | some r' =>
      obtain ⟨hr', hlt⟩ := (hmem r').1 (List.argmin_mem habove)
      exact ⟨r', hr', rfl, hlt, fun s hs hlt => List.le_of_mem_argmin ((hmem s).2 ⟨hs, hlt⟩) habove⟩

end

/-! ## Tables as maps -/

section

/-- A table with a primary key has the rows of a map, each once. -/
structure Represents (key : ρ → κ) (t : List ρ) (m : κ → Option ρ) : Prop where
  nodup : (t.map key).Nodup
  mem_iff : ∀ r, r ∈ t ↔ m (key r) = some r

variable {key : ρ → κ} {m : κ → Option ρ} {k : κ} {r : ρ}

theorem represents_nil (key : ρ → κ) : Represents key [] fun _ => none where
  nodup := List.nodup_nil
  mem_iff r := by simp

/-- The order of the rows does not matter. -/
theorem Represents.perm {t' : List ρ} (h : Represents key t m) (hperm : t'.Perm t) :
    Represents key t' m where
  nodup := (hperm.map key).nodup_iff.2 h.nodup
  mem_iff r := hperm.mem_iff.trans (h.mem_iff r)

theorem Represents.eq_of_key (h : Represents key t m) {r' : ρ} (hr : r ∈ t) (hr' : r' ∈ t)
    (hkey : key r = key r') : r = r' := by
  have hrow := (h.mem_iff r).1 hr
  rw [hkey, (h.mem_iff r').1 hr'] at hrow
  exact (Option.some.inj hrow).symm

/-- **A join by the primary key finds the row of the map.** -/
theorem Represents.join [DecidableEq κ] (h : Represents key t m)
    (hkeyed : ∀ k r, m k = some r → key r = k) (k : κ) :
    (t.filter fun r => decide (key r = k)) = (m k).toList := by
  have hnodup : (t.filter fun r => decide (key r = k)).Nodup := h.nodup.of_map.filter _
  have hmem : ∀ r, r ∈ t.filter (fun r => decide (key r = k)) ↔ m k = some r := by
    intro r
    rw [List.mem_filter, decide_eq_true_eq, h.mem_iff]
    constructor
    · rintro ⟨hr, rfl⟩
      exact hr
    · intro hr
      have hkey := hkeyed k r hr
      exact ⟨by rw [hkey]; exact hr, hkey⟩
  cases hk : m k with
  | none =>
      refine List.eq_nil_iff_forall_not_mem.2 fun r hr => ?_
      rw [hmem, hk] at hr
      cases hr
  | some row =>
      refine List.perm_singleton.1 ((List.perm_ext_iff_of_nodup hnodup (List.nodup_singleton _)).2
        fun r => ?_)
      rw [hmem, hk, List.mem_singleton, Option.some.injEq]
      exact eq_comm

section

variable [DecidableEq κ]

/-- The rows after one is overwritten. -/
theorem mem_overwrite (hrow : ∃ r ∈ t, key r = key row) (hf : ∀ r ∈ t, key r = key row → f r = row)
    (r : ρ) : r ∈ update (fun r => decide (key r = key row)) f t ↔
      r = row ∨ (r ∈ t ∧ key r ≠ key row) := by
  constructor
  · intro hr
    obtain ⟨r₀, hr₀, ⟨hp, rfl⟩ | ⟨hp, rfl⟩⟩ := mem_update hr
    · exact Or.inl (hf r₀ hr₀ (of_decide_eq_true hp))
    · exact Or.inr ⟨hr₀, of_decide_eq_false hp⟩
  · rintro (rfl | ⟨hr, hne⟩)
    · obtain ⟨r₀, hr₀, hkey⟩ := hrow
      have hwritten : f r₀ ∈ update (fun s => decide (key s = key r)) f t :=
        update_mem_of_pos hr₀ (decide_eq_true hkey)
      rwa [hf r₀ hr₀ hkey] at hwritten
    · exact update_mem_of_neg hr (decide_eq_false hne)

/-- The keys do not change when a row is overwritten. -/
theorem map_key_overwrite (hf : ∀ r ∈ t, key r = key row → f r = row) :
    (update (fun r => decide (key r = key row)) f t).map key = t.map key := by
  unfold update
  rw [List.map_map]
  refine List.map_congr_left fun r hr => ?_
  show key (if decide (key r = key row) = true then f r else r) = key r
  split
  · next hkey =>
      rw [decide_eq_true_eq] at hkey
      rw [hf r hr hkey, hkey]
  · rfl

/-- **An insertion that overwrites is one into the map.** -/
theorem Represents.upsert (h : Represents key t m)
    (hf : ∀ r ∈ t, key r = key row → f r = row) :
    Represents key (Table.upsert key f row t) (Function.update m (key row) (some row)) := by
  unfold Table.upsert
  split
  · next hrow =>
      refine ⟨by rw [map_key_overwrite hf]; exact h.nodup, fun r => ?_⟩
      rw [mem_overwrite hrow hf, Function.update_apply]
      by_cases hkey : key r = key row
      · simp [hkey, eq_comm]
      · have hne : r ≠ row := fun heq => hkey (congrArg key heq)
        simp [hkey, hne, h.mem_iff]
  · next hnone =>
      refine ⟨?_, fun r => ?_⟩
      · rw [List.map_append, List.nodup_append]
        refine ⟨h.nodup, List.nodup_singleton _, ?_⟩
        intro k hk k' hk'
        obtain ⟨r, hr, rfl⟩ := List.mem_map.1 hk
        rw [List.mem_singleton.1 hk']
        exact fun hkey => hnone ⟨r, hr, hkey⟩
      · rw [List.mem_append, List.mem_singleton, Function.update_apply]
        by_cases hkey : key r = key row
        · have hnot : r ∉ t := fun hr => hnone ⟨r, hr, hkey⟩
          simp [hkey, hnot, eq_comm]
        · have hne : r ≠ row := fun heq => hkey (congrArg key heq)
          simp [hkey, hne, h.mem_iff]

/-- **A deletion by the primary key is one from the map.** -/
theorem Represents.delete (h : Represents key t m) (k : κ) :
    Represents key (t.filter fun r => decide (key r ≠ k)) (Function.update m k none) where
  nodup := (h.nodup.sublist (List.filter_sublist.map key))
  mem_iff r := by
    rw [List.mem_filter, decide_eq_true_eq, h.mem_iff, Function.update_apply]
    by_cases hkey : key r = k <;> simp [hkey]

end

end

end Table
