import SlotMachine.Ledger.Settlement
import SlotMachine.Ledger.Trail

/-!
# A ledger of keyed values that are rewritten in place

Every value of the ledger has a key and a rank.  A step replaces some values,
each by one with the same key and the next rank, and adds others.  Batches of
steps settle without an order, but the ranks leave only one way to read them.

* `keys_settles` — a batch adds the keys it inserts, and no others.
* `exists_trail_of_key` — **if every key has one value afterwards, the moves of a
  batch on a key form a trail** to this value.
* `nodup_created` — and **no value comes twice**.
* `forall_moves` — **what every move keeps holds of all values a batch touches**,
  as soon as it holds of those it starts with and of those it inserts.
-/

namespace Rewriting

open Settlement Trail

/-- What a step does to the values of a ledger. -/
structure Rewrite (V : Type*) where
  /-- The values replaced, each with what comes in its place. -/
  moves : List (V × V)
  /-- The values added. -/
  inserted : List V

/-- The step as an effect. -/
def Rewrite.effect {V : Type*} (f : Rewrite V) : Effect V where
  consumed := (f.moves.map Prod.fst : List V)
  created := (f.moves.map Prod.snd ++ f.inserted : List V)

/-- Every replacement keeps the key and raises the rank by one. -/
structure Rewrite.Bumps {V κ : Type*} (key : V → κ) (rank : V → ℤ) (f : Rewrite V) : Prop where
  key_eq : ∀ m ∈ f.moves, key m.2 = key m.1
  rank_eq : ∀ m ∈ f.moves, rank m.2 = rank m.1 + 1

variable {V κ : Type*} {key : V → κ} {rank : V → ℤ} {s s' : Multiset V} {fs : List (Rewrite V)}

/-! ## All steps of a batch -/

theorem consumed_total (fs : List (Rewrite V)) :
    (Effect.total (fs.map Rewrite.effect)).consumed
      = ((fs.flatMap Rewrite.moves).map Prod.fst : List V) := by
  induction fs with
  | nil => rfl
  | cons f fs ih =>
      rw [List.map_cons, Effect.consumed_total_cons, ih, List.flatMap_cons, List.map_append,
        ← Multiset.coe_add]
      rfl

theorem created_total (fs : List (Rewrite V)) :
    (Effect.total (fs.map Rewrite.effect)).created
      = ((fs.flatMap Rewrite.moves).map Prod.snd : List V)
        + (fs.flatMap Rewrite.inserted : List V) := by
  induction fs with
  | nil => rfl
  | cons f fs ih =>
      rw [List.map_cons, Effect.created_total_cons, ih, List.flatMap_cons, List.flatMap_cons,
        List.map_append, ← Multiset.coe_add, ← Multiset.coe_add, Rewrite.effect, ← Multiset.coe_add]
      exact add_add_add_comm ..

theorem settles_rewrites : Settles s (Effect.total (fs.map Rewrite.effect)) s' ↔
    s' + ((fs.flatMap Rewrite.moves).map Prod.fst : List V)
      = s + (((fs.flatMap Rewrite.moves).map Prod.snd : List V)
        + (fs.flatMap Rewrite.inserted : List V)) := by
  rw [Settles, consumed_total, created_total]

/-- **A batch adds the keys it inserts.** -/
theorem keys_settles (hfs : ∀ f ∈ fs, f.Bumps key rank)
    (h : Settles s (Effect.total (fs.map Rewrite.effect)) s') :
    s'.map key = s.map key + ((fs.flatMap Rewrite.inserted).map key : List κ) := by
  have hkeys := congrArg (Multiset.map key) (settles_rewrites.1 h)
  have hsame : (fs.flatMap Rewrite.moves).map (fun m => key m.2)
      = (fs.flatMap Rewrite.moves).map (fun m => key m.1) := by
    refine List.map_congr_left fun m hm => ?_
    obtain ⟨f, hf, hmf⟩ := List.mem_flatMap.1 hm
    exact (hfs f hf).key_eq m hmf
  simp only [Multiset.map_add, Multiset.map_coe, List.map_map, Function.comp_def, hsame] at hkeys
  rw [add_left_comm, add_comm] at hkeys
  exact add_left_cancel hkeys

/-! ## What moves keep -/

/-- **What every move keeps holds of all that is moved.**  A value that is
replaced was there before, or inserted, or put there by a move of lower rank, so
nothing can justify itself. -/
theorem forall_moves {P : V → Prop} (hrank : ∀ f ∈ fs, ∀ m ∈ f.moves, rank m.2 = rank m.1 + 1)
    (h : Settles s (Effect.total (fs.map Rewrite.effect)) s') (hs : ∀ v ∈ s, P v)
    (hinserted : ∀ f ∈ fs, ∀ v ∈ f.inserted, P v)
    (hmoves : ∀ f ∈ fs, ∀ m ∈ f.moves, P m.1 → P m.2) :
    ∀ f ∈ fs, ∀ m ∈ f.moves, P m.1 ∧ P m.2 := by
  classical
  let all := (fs.flatMap Rewrite.moves).toFinset
  have hall : ∀ {m}, m ∈ all ↔ ∃ f ∈ fs, m ∈ f.moves := by
    intro m
    rw [List.mem_toFinset, List.mem_flatMap]
  have hfirst : ∀ m ∈ all, P m.1 := by
    by_contra hbad
    push Not at hbad
    obtain ⟨bad, hbad, hnot⟩ := hbad
    -- a move of least rank among those that start at a value without `P`
    obtain ⟨m, hm, hleast⟩ := Finset.exists_min_image (all.filter fun m => ¬ P m.1)
      (fun m => rank m.1) ⟨bad, Finset.mem_filter.2 ⟨hbad, hnot⟩⟩
    obtain ⟨hmall, hmnot⟩ := Finset.mem_filter.1 hm
    have hconsumed : m.1 ∈ (Effect.total (fs.map Rewrite.effect)).consumed := by
      rw [consumed_total]
      exact List.mem_map_of_mem (List.mem_toFinset.1 hmall)
    rcases h.mem_or_mem_of_consumed hconsumed with hlive | hcreated
    · exact hmnot (hs _ hlive)
    rw [created_total, Multiset.mem_add, Multiset.mem_coe, Multiset.mem_coe] at hcreated
    rcases hcreated with hmoved | hadded
    · obtain ⟨m', hm', heq⟩ := List.mem_map.1 hmoved
      obtain ⟨f, hf, hmf⟩ := List.mem_flatMap.1 hm'
      by_cases hP : P m'.1
      · exact hmnot (heq ▸ hmoves f hf m' hmf hP)
      · have hle := hleast m' (Finset.mem_filter.2 ⟨List.mem_toFinset.2 hm', hP⟩)
        have hstep := hrank f hf m' hmf
        rw [heq] at hstep
        omega
    · obtain ⟨f, hf, hmf⟩ := List.mem_flatMap.1 hadded
      exact hmnot (hinserted f hf _ hmf)
  intro f hf m hm
  have hP := hfirst m (hall.2 ⟨f, hf, hm⟩)
  exact ⟨hP, hmoves f hf m hm hP⟩

/-- So it holds of all that is live afterwards. -/
theorem forall_live {P : V → Prop} (hrank : ∀ f ∈ fs, ∀ m ∈ f.moves, rank m.2 = rank m.1 + 1)
    (h : Settles s (Effect.total (fs.map Rewrite.effect)) s') (hs : ∀ v ∈ s, P v)
    (hinserted : ∀ f ∈ fs, ∀ v ∈ f.inserted, P v)
    (hmoves : ∀ f ∈ fs, ∀ m ∈ f.moves, P m.1 → P m.2) : ∀ v ∈ s', P v := by
  intro v hv
  rcases h.mem_or_mem hv with hlive | hcreated
  · exact hs v hlive
  rw [created_total, Multiset.mem_add, Multiset.mem_coe, Multiset.mem_coe] at hcreated
  rcases hcreated with hmoved | hadded
  · obtain ⟨m, hm, rfl⟩ := List.mem_map.1 hmoved
    obtain ⟨f, hf, hmf⟩ := List.mem_flatMap.1 hm
    exact (forall_moves hrank h hs hinserted hmoves f hf m hmf).2
  · obtain ⟨f, hf, hmf⟩ := List.mem_flatMap.1 hadded
    exact hinserted f hf v hmf

/-! ## The moves on one key -/

section Key

variable [DecidableEq κ]

/-- The moves of a batch on the values with the key `k`. -/
def movesOn (key : V → κ) (k : κ) (fs : List (Rewrite V)) : List (V × V) :=
  (fs.flatMap Rewrite.moves).filter fun m => key m.1 = k

theorem climbs_movesOn (hfs : ∀ f ∈ fs, f.Bumps key rank) (k : κ) :
    Climbs rank (movesOn key k fs : Multiset (V × V)) := by
  intro m hm
  obtain ⟨f, hf, hmf⟩ := List.mem_flatMap.1 (List.mem_filter.1 (Multiset.mem_coe.1 hm)).1
  exact (hfs f hf).rank_eq m hmf

theorem filter_map_snd_moves (hfs : ∀ f ∈ fs, f.Bumps key rank) (k : κ) :
    ((fs.flatMap Rewrite.moves).map Prod.snd).filter (key · = k)
      = (movesOn key k fs).map Prod.snd := by
  rw [List.filter_map, movesOn]
  refine congrArg (List.map Prod.snd) (List.filter_congr fun m hm => ?_)
  obtain ⟨f, hf, hmf⟩ := List.mem_flatMap.1 hm
  simp only [Function.comp, (hfs f hf).key_eq m hmf]

/-- The values with one key settle among themselves. -/
theorem settles_key (hfs : ∀ f ∈ fs, f.Bumps key rank)
    (h : Settles s (Effect.total (fs.map Rewrite.effect)) s') (k : κ) :
    s'.filter (key · = k) + ((movesOn key k fs).map Prod.fst : List V)
      = (s.filter (key · = k)
          + ((fs.flatMap Rewrite.inserted : List V) : Multiset V).filter (key · = k))
        + ((movesOn key k fs).map Prod.snd : List V) := by
  have hfilter := congrArg (Multiset.filter (key · = k)) (settles_rewrites.1 h)
  have hfst : ((fs.flatMap Rewrite.moves).map Prod.fst).filter (key · = k)
      = (movesOn key k fs).map Prod.fst := by
    rw [List.filter_map]; rfl
  rw [Multiset.filter_add, Multiset.filter_add, Multiset.filter_add, Multiset.filter_coe,
    Multiset.filter_coe, hfst, filter_map_snd_moves hfs k] at hfilter
  rw [hfilter, add_assoc, add_comm (((movesOn key k fs).map Prod.snd : List V) : Multiset V)]

/-- With one value for each key, a key has at most one value. -/
theorem filter_key_of_nodup (hs : (s.map key).Nodup) (k : κ) :
    s.filter (key · = k) = 0 ∨ ∃ v, s.filter (key · = k) = {v} := by
  have hcount := Multiset.nodup_iff_count_le_one.1 hs k
  rw [Multiset.count_map, Multiset.filter_congr fun v _ => @eq_comm _ k (key v)] at hcount
  rcases Nat.le_one_iff_eq_zero_or_eq_one.1 hcount with hzero | hone
  · exact Or.inl (Multiset.card_eq_zero.1 hzero)
  · exact Or.inr (Multiset.card_eq_one.1 hone)

/-- The values with one key: none at all, or one there before the batch or
inserted by it, from which the moves on the key lead to the one afterwards. -/
theorem settles_key_cases (hfs : ∀ f ∈ fs, f.Bumps key rank)
    (h : Settles s (Effect.total (fs.map Rewrite.effect)) s') (hnodup : (s'.map key).Nodup)
    (k : κ) :
    (s.filter (key · = k)
        + ((fs.flatMap Rewrite.inserted : List V) : Multiset V).filter (key · = k) = 0 ∧
      movesOn key k fs = []) ∨
      ∃ a b trail, s.filter (key · = k)
          + ((fs.flatMap Rewrite.inserted : List V) : Multiset V).filter (key · = k) = {a} ∧
        s'.filter (key · = k) = {b} ∧ trail.Perm (movesOn key k fs) ∧ IsTrail a trail b := by
  have hkey := settles_key hfs h k
  have hclimbs := climbs_movesOn hfs k
  rcases filter_key_of_nodup hnodup k with hnone | ⟨b, hb⟩
  · -- no value with this key is left, so there was none
    rw [hnone, zero_add] at hkey
    have hcard := congrArg Multiset.card hkey
    simp only [Multiset.card_add, Multiset.coe_card, List.length_map] at hcard
    have hzero : s.filter (key · = k)
        + ((fs.flatMap Rewrite.inserted : List V) : Multiset V).filter (key · = k) = 0 :=
      Multiset.card_eq_zero.1 (by rw [Multiset.card_add]; omega)
    rw [hzero, zero_add] at hkey
    exact Or.inl ⟨hzero, Multiset.coe_eq_zero _ |>.1 (eq_zero_of_balanced hclimbs hkey.symm)⟩
  · right
    rw [hb] at hkey
    have hcard := congrArg Multiset.card hkey
    simp only [Multiset.card_add, Multiset.coe_card, List.length_map, Multiset.card_singleton]
      at hcard
    obtain ⟨a, ha⟩ := Multiset.card_eq_one.1 (by rw [Multiset.card_add]; omega :
      (s.filter (key · = k)
        + ((fs.flatMap Rewrite.inserted : List V) : Multiset V).filter (key · = k)).card = 1)
    rw [ha, Multiset.singleton_add, Multiset.singleton_add] at hkey
    obtain ⟨trail, htrail, hab⟩ := exists_trail hclimbs hkey.symm
    exact ⟨a, b, trail, ha, hb, Multiset.coe_eq_coe.1 htrail, hab⟩

/-- **The history of a key within a batch.**  Either no value has the key and no
step touches it, or its value (there before the batch or inserted by it) goes
through all the moves on the key, one after the other, to the value afterwards. -/
theorem exists_trail_of_key (hfs : ∀ f ∈ fs, f.Bumps key rank)
    (h : Settles s (Effect.total (fs.map Rewrite.effect)) s') (hnodup : (s'.map key).Nodup)
    (k : κ) :
    ((∀ v ∈ s, key v ≠ k) ∧ movesOn key k fs = []) ∨
      ∃ a b trail, (a ∈ s ∨ a ∈ fs.flatMap Rewrite.inserted) ∧
        (∀ v ∈ s, key v = k → v = a) ∧ b ∈ s' ∧ key a = k ∧ key b = k ∧
        trail.Perm (movesOn key k fs) ∧ IsTrail a trail b := by
  rcases settles_key_cases hfs h hnodup k with ⟨hzero, hnil⟩ | ⟨a, b, trail, ha, hb, hperm, hab⟩
  · refine Or.inl ⟨fun v hv hvk => ?_, hnil⟩
    have hmem : v ∈ s.filter (key · = k) := Multiset.mem_filter.2 ⟨hv, hvk⟩
    rw [(add_eq_zero.1 hzero).1] at hmem
    exact Multiset.notMem_zero v hmem
  · right
    have hmem : a ∈ s.filter (key · = k)
        + ((fs.flatMap Rewrite.inserted : List V) : Multiset V).filter (key · = k) := by
      rw [ha]; exact Multiset.mem_singleton_self a
    have hbmem : b ∈ s'.filter (key · = k) := by
      rw [hb]; exact Multiset.mem_singleton_self b
    obtain ⟨hb', hbk⟩ := Multiset.mem_filter.1 hbmem
    refine ⟨a, b, trail, ?_, fun v hv hvk => ?_, hb', ?_, hbk, hperm, hab⟩
    · rcases Multiset.mem_add.1 hmem with hm | hm
      · exact Or.inl (Multiset.mem_filter.1 hm).1
      · exact Or.inr (Multiset.mem_coe.1 (Multiset.mem_filter.1 hm).1)
    · have hmem' : v ∈ s.filter (key · = k) := Multiset.mem_filter.2 ⟨hv, hvk⟩
      have hle : s.filter (key · = k) ≤ {a} := by
        rw [← ha]; exact Multiset.le_add_right _ _
      exact Multiset.mem_singleton.1 (Multiset.mem_of_le hle hmem')
    · rcases Multiset.mem_add.1 hmem with hm | hm <;> exact (Multiset.mem_filter.1 hm).2

/-- **No value comes twice**, if every key has one value afterwards. -/
theorem nodup_created (hfs : ∀ f ∈ fs, f.Bumps key rank)
    (h : Settles s (Effect.total (fs.map Rewrite.effect)) s') (hnodup : (s'.map key).Nodup) :
    (s + (Effect.total (fs.map Rewrite.effect)).created).Nodup := by
  classical
  rw [Multiset.nodup_iff_count_le_one]
  intro v
  have hsnd : ((fs.flatMap Rewrite.moves).map Prod.snd).filter (key · = key v)
      = (movesOn key (key v) fs).map Prod.snd := filter_map_snd_moves hfs (key v)
  have hcount : (s + (Effect.total (fs.map Rewrite.effect)).created).count v
      = ((s.filter (key · = key v)
          + ((fs.flatMap Rewrite.inserted : List V) : Multiset V).filter (key · = key v))
        + ((movesOn key (key v) fs).map Prod.snd : List V)).count v := by
    rw [← Multiset.count_filter_of_pos (p := (key · = key v)) rfl, created_total,
      Multiset.filter_add, Multiset.filter_add, Multiset.filter_coe _ (List.map _ _), hsnd,
      add_comm (((movesOn key (key v) fs).map Prod.snd : List V) : Multiset V), add_assoc]
  rw [hcount]
  rcases settles_key_cases hfs h hnodup (key v) with ⟨hzero, hnil⟩ | ⟨a, b, trail, ha, -, hperm, hab⟩
  · rw [hzero, hnil]
    exact Nat.zero_le 1
  · have hclimbs : Climbs rank (trail : Multiset (V × V)) := by
      rw [Multiset.coe_eq_coe.2 hperm]
      exact climbs_movesOn hfs (key v)
    rw [ha, ← Multiset.coe_eq_coe.2 (hperm.map Prod.snd), Multiset.singleton_add,
      Multiset.cons_coe]
    exact Multiset.nodup_iff_count_le_one.1 (Multiset.coe_nodup.2 (hab.nodup hclimbs)) v

end Key

end Rewriting
