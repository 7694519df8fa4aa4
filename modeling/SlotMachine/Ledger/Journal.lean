import SlotMachine.Ledger.Rewriting

/-!
# Journals of a ledger

A ledger of keyed values that are rewritten in place, known only by what each
batch of steps reports: the values it created and the values it spent, each list
in some order of its own.

* `Entry.Records` — an entry says what some steps did.
* `IsJournal` — the entries of a ledger, with the values live at the end.
* `IsJournal.nodup_created`, `IsJournal.mem_live` — **no value is created twice**,
  and what is live is what was created and not spent.
* `IsJournal.take` — if nothing is spent before it is created, **every prefix is a
  journal**.
* `lastWith` — the last value of a list with a key.
-/

namespace Journal

open Settlement Rewriting

/-- What a batch of steps reports. -/
structure Entry (V : Type*) where
  created : List V
  spent : List V

variable {V κ : Type*}

/-- All values there have been: the first ones, and those created. -/
def created (first : List V) (es : List (Entry V)) : List V := first ++ es.flatMap Entry.created

/-- All values that were spent. -/
def spent (es : List (Entry V)) : List V := es.flatMap Entry.spent

/-- The entry reports the values of some steps. -/
structure Entry.Records (e : Entry V) (fs : List (Rewrite V)) : Prop where
  created_perm : e.created.Perm (fs.flatMap fun f => f.moves.map Prod.snd ++ f.inserted)
  spent_perm : e.spent.Perm (fs.flatMap fun f => f.moves.map Prod.fst)

/-- The entries of a ledger that starts with `first` and has `live` in the end. -/
structure IsJournal (key : V → κ) (rank : V → ℤ) (first : List V) (es : List (Entry V))
    (live : Multiset V) : Prop where
  rewrites : ∃ fss, List.Forall₂ Entry.Records es fss ∧
    (∀ f ∈ fss.flatten, f.Bumps key rank) ∧
    Settles (first : Multiset V) (Effect.total (fss.flatten.map Rewrite.effect)) live
  nodup_keys : (live.map key).Nodup

/-- Nothing is spent before it is created. -/
def Ordered (first : List V) (es : List (Entry V)) : Prop :=
  ∀ n, spent (es.take n) ⊆ created first (es.take n)

section

variable {first : List V} {es es' : List (Entry V)} {e : Entry V}

@[simp] theorem created_append : created first (es ++ es')
    = created first es ++ es'.flatMap Entry.created := by
  simp [created]

@[simp] theorem spent_append : spent (es ++ es') = spent es ++ spent es' := by
  simp [spent]

@[simp] theorem created_nil : created first [] = first := List.append_nil first

@[simp] theorem spent_nil : spent ([] : List (Entry V)) = [] := rfl

theorem mem_created_of_mem {v : V} (he : e ∈ es) (hv : v ∈ e.created) : v ∈ created first es :=
  List.mem_append_right _ (List.mem_flatMap.2 ⟨e, he, hv⟩)

theorem Ordered.subset (h : Ordered first es) : spent es ⊆ created first es := by
  have hall := h es.length
  rwa [List.take_length] at hall

theorem Ordered.take (h : Ordered first es) (n : ℕ) : Ordered first (es.take n) := by
  intro m
  rw [List.take_take]
  exact h _

end

/-! ## What the entries say of the steps -/

section

variable {es : List (Entry V)} {fss : List (List (Rewrite V))}

theorem coe_flatMap_created (h : List.Forall₂ Entry.Records es fss) :
    ((es.flatMap Entry.created : List V) : Multiset V)
      = (Effect.total (fss.flatten.map Rewrite.effect)).created := by
  rw [created_total, Multiset.coe_add, Multiset.coe_eq_coe]
  induction h with
  | nil => rfl
  | @cons e fs es fss he _ ih =>
      rw [List.flatMap_cons, List.flatten_cons, List.flatMap_append, List.flatMap_append,
        List.map_append]
      have hhead : e.created.Perm ((fs.flatMap Rewrite.moves).map Prod.snd
          ++ fs.flatMap Rewrite.inserted) := by
        refine he.created_perm.trans ?_
        rw [List.map_flatMap]
        exact (List.flatMap_append_perm ..).symm
      rw [← Multiset.coe_eq_coe] at hhead ih ⊢
      simp only [← Multiset.coe_add] at hhead ih ⊢
      rw [hhead, ih]
      exact add_add_add_comm ..

theorem coe_spent (h : List.Forall₂ Entry.Records es fss) :
    ((spent es : List V) : Multiset V)
      = (Effect.total (fss.flatten.map Rewrite.effect)).consumed := by
  rw [consumed_total, Multiset.coe_eq_coe]
  unfold spent
  induction h with
  | nil => rfl
  | @cons e fs es fss he _ ih =>
      rw [List.flatMap_cons, List.flatten_cons, List.flatMap_append, List.map_append]
      refine List.Perm.append ?_ ih
      rw [List.map_flatMap]
      exact he.spent_perm

end

variable {key : V → κ} {rank : V → ℤ} {first : List V} {es : List (Entry V)} {live : Multiset V}

/-- What was created is live or was spent. -/
theorem IsJournal.live_add_spent (h : IsJournal key rank first es live) :
    live + (spent es : Multiset V) = (created first es : Multiset V) := by
  obtain ⟨⟨fss, hrecords, -, hsettles⟩, -⟩ := h
  unfold created
  rw [← Multiset.coe_add, coe_flatMap_created hrecords, coe_spent hrecords]
  exact hsettles

/-- **No value is created twice.** -/
theorem IsJournal.nodup_created (h : IsJournal key rank first es live) :
    (created first es).Nodup := by
  classical
  obtain ⟨⟨fss, hrecords, hbumps, hsettles⟩, hkeys⟩ := h
  rw [← Multiset.coe_nodup, created, ← Multiset.coe_add, coe_flatMap_created hrecords]
  exact Rewriting.nodup_created hbumps hsettles hkeys

theorem IsJournal.nodup_live_add_spent (h : IsJournal key rank first es live) :
    (live + (spent es : Multiset V)).Nodup := by
  rw [h.live_add_spent]
  exact Multiset.coe_nodup.2 h.nodup_created

theorem IsJournal.nodup_spent (h : IsJournal key rank first es live) : (spent es).Nodup :=
  Multiset.coe_nodup.1 (Multiset.nodup_add.1 h.nodup_live_add_spent).2.1

theorem IsJournal.spent_subset (h : IsJournal key rank first es live) :
    spent es ⊆ created first es := by
  intro v hv
  have hmem : v ∈ live + (spent es : Multiset V) :=
    Multiset.mem_add.2 (Or.inr (Multiset.mem_coe.2 hv))
  rw [h.live_add_spent] at hmem
  exact Multiset.mem_coe.1 hmem

/-- **What is live was created and not spent.** -/
theorem IsJournal.mem_live (h : IsJournal key rank first es live) {v : V} :
    v ∈ live ↔ v ∈ created first es ∧ v ∉ spent es := by
  have hmem : v ∈ live + (spent es : Multiset V) ↔ v ∈ created first es := by
    rw [h.live_add_spent, Multiset.mem_coe]
  have hdisjoint := (Multiset.nodup_add.1 h.nodup_live_add_spent).2.2
  constructor
  · intro hv
    exact ⟨hmem.1 (Multiset.mem_add.2 (Or.inl hv)),
      fun hspent => Multiset.disjoint_left.1 hdisjoint hv (Multiset.mem_coe.2 hspent)⟩
  · rintro ⟨hcreated, hspent⟩
    rcases Multiset.mem_add.1 (hmem.2 hcreated) with hlive | hmem
    · exact hlive
    · exact absurd (Multiset.mem_coe.1 hmem) hspent

/-- Two live values with one key are one value. -/
theorem IsJournal.eq_of_key (h : IsJournal key rank first es live) {v w : V} (hv : v ∈ live)
    (hw : w ∈ live) (hkey : key v = key w) : v = w :=
  Multiset.inj_on_of_nodup_map h.nodup_keys v hv w hw hkey

/-- **What is spent is replaced in the same batch**, by a value of higher rank. -/
theorem IsJournal.exists_replacement (h : IsJournal key rank first es live) {e : Entry V}
    (he : e ∈ es) {v : V} (hv : v ∈ e.spent) :
    ∃ w ∈ e.created, key w = key v ∧ rank v < rank w := by
  obtain ⟨⟨fss, hrecords, hbumps, -⟩, -⟩ := h
  obtain ⟨i, hi, rfl⟩ := List.getElem_of_mem he
  have hi' : i < fss.length := hrecords.length_eq ▸ hi
  have hrecord := hrecords.get hi hi'
  obtain ⟨f, hf, hmoves⟩ := List.mem_flatMap.1 (hrecord.spent_perm.mem_iff.1 hv)
  obtain ⟨m, hm, rfl⟩ := List.mem_map.1 hmoves
  have hbump := hbumps f (List.mem_flatten.2 ⟨_, List.get_mem fss ⟨i, hi'⟩, hf⟩)
  refine ⟨m.2, hrecord.created_perm.mem_iff.2 (List.mem_flatMap.2 ⟨f, hf, ?_⟩),
    hbump.key_eq m hm, ?_⟩
  · exact List.mem_append_left _ (List.mem_map_of_mem hm)
  · rw [hbump.rank_eq m hm]
    exact lt_add_one _

/-- **Every key there has been has a live value.** -/
theorem IsJournal.exists_live (h : IsJournal key rank first es live) {v : V}
    (hv : v ∈ created first es) : ∃ w ∈ live, key w = key v := by
  obtain ⟨⟨fss, hrecords, hbumps, hsettles⟩, -⟩ := h
  have hkeys := keys_settles hbumps hsettles
  have hfirst : ∀ w ∈ (first : Multiset V), key w ∈ live.map key := fun w hw => by
    rw [hkeys]
    exact Multiset.mem_add.2 (Or.inl (Multiset.mem_map_of_mem key hw))
  have hinserted : ∀ f ∈ fss.flatten, ∀ w ∈ f.inserted, key w ∈ live.map key :=
    fun f hf w hw => by
      rw [hkeys]
      refine Multiset.mem_add.2 (Or.inr (Multiset.mem_coe.2 (List.mem_map_of_mem ?_)))
      exact List.mem_flatMap.2 ⟨f, hf, hw⟩
  have hmoves := forall_moves (P := fun w => key w ∈ live.map key)
    (fun f hf => (hbumps f hf).rank_eq) hsettles hfirst hinserted
    (fun f hf m hm hmem => by rwa [(hbumps f hf).key_eq m hm])
  suffices hmem : key v ∈ live.map key by
    obtain ⟨w, hw, heq⟩ := Multiset.mem_map.1 hmem
    exact ⟨w, hw, heq⟩
  have hcreated : v ∈ (first : Multiset V)
      + (Effect.total (fss.flatten.map Rewrite.effect)).created := by
    rw [← coe_flatMap_created hrecords, Multiset.coe_add]
    exact Multiset.mem_coe.2 hv
  rw [created_total] at hcreated
  rcases Multiset.mem_add.1 hcreated with hmem | hmem
  · exact hfirst v hmem
  rcases Multiset.mem_add.1 hmem with hmem | hmem
  · obtain ⟨m, hm, rfl⟩ := List.mem_map.1 (Multiset.mem_coe.1 hmem)
    obtain ⟨f, hf, hmf⟩ := List.mem_flatMap.1 hm
    exact (hmoves f hf m hmf).2
  · obtain ⟨f, hf, hmf⟩ := List.mem_flatMap.1 (Multiset.mem_coe.1 hmem)
    exact hinserted f hf v hmf

theorem IsJournal.nodup_keys_first (h : IsJournal key rank first es live) :
    (first.map key).Nodup := by
  obtain ⟨⟨fss, -, hbumps, hsettles⟩, hkeys⟩ := h
  rw [keys_settles hbumps hsettles] at hkeys
  exact Multiset.coe_nodup.1 (Multiset.nodup_add.1 hkeys).1

/-- **A prefix of a journal is one**, if nothing is spent before it is created. -/
theorem IsJournal.take (h : IsJournal key rank first es live) (hordered : Ordered first es)
    (n : ℕ) : ∃ live', IsJournal key rank first (es.take n) live' := by
  classical
  have hcreated := h.nodup_created
  have hspent := h.nodup_spent
  obtain ⟨⟨fss, hrecords, hbumps, hsettles⟩, hkeys⟩ := h
  have hprefix := List.forall₂_take n hrecords
  have hsublist : (fss.take n).flatten.Sublist fss.flatten := (List.take_sublist n fss).flatten
  have hmem : (spent (es.take n)).Nodup := by
    refine hspent.sublist ?_
    unfold spent
    exact (List.take_sublist n es).flatMap _
  have hle : ((spent (es.take n) : List V) : Multiset V)
      ≤ (created first (es.take n) : List V) :=
    (Multiset.le_iff_subset (Multiset.coe_nodup.2 hmem)).2 fun v hv =>
      Multiset.mem_coe.2 (hordered n (Multiset.mem_coe.1 hv))
  have hsettles' : Settles (first : Multiset V)
      (Effect.total ((fss.take n).flatten.map Rewrite.effect))
      ((created first (es.take n) : List V) - (spent (es.take n) : List V) : Multiset V) := by
    unfold Settles
    rw [← coe_spent hprefix, ← coe_flatMap_created hprefix, Multiset.sub_add_cancel hle, created,
      Multiset.coe_add]
  refine ⟨_, ⟨_, hprefix, fun f hf => hbumps f (hsublist.subset hf), hsettles'⟩, ?_⟩
  rw [keys_settles (fun f hf => hbumps f (hsublist.subset hf)) hsettles']
  rw [keys_settles hbumps hsettles] at hkeys
  refine Multiset.nodup_of_le (add_le_add_right (Multiset.coe_le.2 ?_) _) hkeys
  exact ((hsublist.flatMap _).map _).subperm

/-! ## The last value with a key -/

section

variable [DecidableEq κ]

/-- The last value of a list that has the key. -/
def lastWith (key : V → κ) (k : κ) (l : List V) : Option V :=
  (l.filter fun v => key v = k).getLast?

theorem lastWith_append (key : V → κ) (k : κ) (l l' : List V) :
    lastWith key k (l ++ l') = (lastWith key k l').or (lastWith key k l) := by
  unfold lastWith
  rw [List.filter_append, List.getLast?_append]

theorem lastWith_eq_none {k : κ} {l : List V} :
    lastWith key k l = none ↔ ∀ v ∈ l, key v ≠ k := by
  unfold lastWith
  rw [List.getLast?_eq_none_iff, List.filter_eq_nil_iff]
  simp

theorem mem_of_lastWith {k : κ} {l : List V} {v : V} (h : lastWith key k l = some v) :
    v ∈ l ∧ key v = k := by
  have hmem := List.mem_of_getLast? h
  rw [List.mem_filter, decide_eq_true_eq] at hmem
  exact hmem

theorem exists_lastWith {l : List V} {v : V} (hv : v ∈ l) :
    ∃ w, lastWith key (key v) l = some w := by
  cases hlast : lastWith key (key v) l with
  | none => exact absurd rfl (lastWith_eq_none.1 hlast v hv)
  | some w => exact ⟨w, rfl⟩

theorem lastWith_of_nodup {l : List V} (hl : (l.map key).Nodup) {v : V} (hv : v ∈ l) :
    lastWith key (key v) l = some v := by
  obtain ⟨w, hw⟩ : ∃ w, lastWith key (key v) l = some w := exists_lastWith hv
  obtain ⟨hmem, hkey⟩ := mem_of_lastWith hw
  rw [hw, List.inj_on_of_nodup_map hl hmem hv hkey]

theorem lastWith_map {U : Type*} {f : U → V} {k : κ} {l : List U} :
    lastWith key k (l.map f) = (lastWith (key ∘ f) k l).map f := by
  unfold lastWith
  rw [List.filter_map, List.getLast?_map]
  rfl

end

end Journal
