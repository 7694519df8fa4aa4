import SlotMachine.Listener.SingletonStore

/-!
# References to launchers

A handle slot names two launchers.  A log changes how many slots name a launcher, and
the indexer changes the record of the launcher.

* `ActionLog.Gains`, `ActionLog.Loses`, `ActionLog.Renames` — what a log does to a launcher.
* `references`, `ActionLog.Lawful.gain_effect` — **the number of slots**, and what a log
  adds to it.
* `trackSlotReferenceChanges_apply`, `forEach_discoverReference`, `onActionLog_apply` —
  **what a log does to a record**.
-/

namespace SlotMachine.Listener

open Settlement

/-! ## What logs do to launchers -/

/-- The slot names the launcher, as the owner of its handle or as what it resolves to. -/
def HandleSlotValue.Names (v : HandleSlotValue) (launcher : Bytes) : Prop :=
  launcher = v.ownerLauncherId ∨ launcher = v.resolvedLauncherId

instance (v : HandleSlotValue) (launcher : Bytes) : Decidable (v.Names launcher) :=
  inferInstanceAs (Decidable (_ ∨ _))

namespace ActionLog

/-- One more slot names the launcher. -/
def Gains (log : ActionLog) (launcher : Bytes) : Prop :=
  (∃ v ∈ log.added, v.Names launcher) ∨
    ∃ m ∈ log.replacements, m.2.Names launcher ∧ ¬ m.1.Names launcher

/-- One slot less names the launcher. -/
def Loses (log : ActionLog) (launcher : Bytes) : Prop :=
  ∃ m ∈ log.replacements, m.1.Names launcher ∧ ¬ m.2.Names launcher

/-- A slot that comes back names the launcher. -/
def Renames (log : ActionLog) (launcher : Bytes) : Prop :=
  ∃ m ∈ log.replacements, m.2.Names launcher

instance (log : ActionLog) (launcher : Bytes) : Decidable (log.Gains launcher) :=
  inferInstanceAs (Decidable (_ ∨ _))

instance (log : ActionLog) (launcher : Bytes) : Decidable (log.Loses launcher) :=
  inferInstanceAs (Decidable (∃ m ∈ log.replacements, _))

instance (log : ActionLog) (launcher : Bytes) : Decidable (log.Renames launcher) :=
  inferInstanceAs (Decidable (∃ m ∈ log.replacements, _))

/-- The log changes the data of a handle. -/
def Rewrites (log : ActionLog) : Prop := log.action = .expire ∨ log.action = .executeUpdate

instance (log : ActionLog) : Decidable log.Rewrites :=
  inferInstanceAs (Decidable (_ ∨ _))

/-- The launchers that discovery looks for. -/
def referenced (log : ActionLog) : List Bytes :=
  (referencesFromActionLog log).map SingletonReference.launcherId

end ActionLog

section

variable {log : ActionLog} {launcher : Bytes}

/-- Slots that keep their data name what they named. -/
theorem ActionLog.Lawful.names_iff (h : log.Lawful) (hlog : ¬ log.Rewrites)
    {m : HandleSlotValue × HandleSlotValue} (hm : m ∈ log.replacements) (launcher : Bytes) :
    m.2.Names launcher ↔ m.1.Names launcher := by
  unfold ActionLog.Rewrites at hlog
  obtain ⟨howner, hresolved⟩ := h.data_eq (fun h => hlog (Or.inl h)) (fun h => hlog (Or.inr h)) m hm
  unfold HandleSlotValue.Names
  rw [howner, hresolved]

/-- Only an expiry or an update takes a launcher from a handle. -/
theorem ActionLog.Lawful.not_loses (h : log.Lawful) (hlog : ¬ log.Rewrites) :
    ¬ log.Loses launcher := by
  rintro ⟨m, hm, hbefore, hafter⟩
  exact hafter ((h.names_iff hlog hm launcher).2 hbefore)

/-- An expiry or an update replaces one slot. -/
theorem ActionLog.Rewrites.exists_replacement (h : log.Rewrites) :
    ∃ m, log.replacements = [m] ∧ log.added = [] := by
  cases log with
  | expire e => exact ⟨_, rfl, rfl⟩
  | executeUpdate e => exact ⟨_, rfl, rfl⟩
  | _ => rcases h with h | h <;> cases h

end

/-! ## The number of slots -/

/-- The slot is one of a registered handle, not of a sentinel. -/
def Registered (low high v : HandleSlotValue) : Prop :=
  v.handleHash ≠ low.handleHash ∧ v.handleHash ≠ high.handleHash

instance (low high v : HandleSlotValue) : Decidable (Registered low high v) :=
  inferInstanceAs (Decidable (_ ∧ _))

/-- The number of slots of registered handles that name a launcher; one that names it
twice counts once. -/
def references (low high : HandleSlotValue) (live : Multiset HandleSlotValue) (launcher : Bytes) :
    ℕ :=
  live.countP fun v => Registered low high v ∧ v.Names launcher

/-- What a slot adds to this number. -/
def mention (low high : HandleSlotValue) (launcher : Bytes) (v : HandleSlotValue) : ℤ :=
  if Registered low high v ∧ v.Names launcher then 1 else 0

section

variable {low high : HandleSlotValue} {launcher : Bytes} {log : ActionLog}

theorem weigh_mention (live : Multiset HandleSlotValue) :
    weigh (mention low high launcher) live = references low high live launcher := by
  unfold references
  induction live using Multiset.induction_on with
  | empty => rfl
  | cons v live ih =>
      rw [weigh_cons, ih, Multiset.countP_cons]
      unfold mention
      by_cases hv : Registered low high v ∧ v.Names launcher
      · rw [if_pos hv, if_pos hv]
        push_cast
        ring
      · rw [if_neg hv, if_neg hv]
        simp

theorem references_sentinels : references low high {low, high} launcher = 0 := by
  unfold references
  rw [Multiset.countP_eq_zero]
  intro v hv
  rw [Multiset.insert_eq_cons, Multiset.mem_cons, Multiset.mem_singleton] at hv
  rintro ⟨⟨hlow, hhigh⟩, -⟩
  rcases hv with rfl | rfl
  · exact hlow rfl
  · exact hhigh rfl

theorem gain_effect_eq (log : ActionLog) (w : HandleSlotValue → ℤ) :
    log.effect.gain w = (log.added.map w).sum
      + ((log.replacements.map fun m => w m.2).sum - (log.replacements.map fun m => w m.1).sum) := by
  have hcreated : weigh w log.effect.created
      = (log.replacements.map fun m => w m.2).sum + (log.added.map w).sum := by
    simp [ActionLog.effect, ActionLog.rewrite, Rewriting.Rewrite.effect, weigh, Function.comp_def]
  have hconsumed : weigh w log.effect.consumed = (log.replacements.map fun m => w m.1).sum := by
    simp [ActionLog.effect, ActionLog.rewrite, Rewriting.Rewrite.effect, weigh, Function.comp_def]
  unfold Effect.gain
  rw [hcreated, hconsumed]
  ring

theorem ActionLog.Lawful.registered_iff (h : log.Lawful)
    {m : HandleSlotValue × HandleSlotValue} (hm : m ∈ log.replacements) :
    Registered low high m.2 ↔ Registered low high m.1 := by
  unfold Registered
  rw [h.handleHash_eq m hm]

/-- A slot that keeps its data counts as before. -/
theorem ActionLog.Lawful.mention_eq (h : log.Lawful) (hlog : ¬ log.Rewrites)
    {m : HandleSlotValue × HandleSlotValue} (hm : m ∈ log.replacements) :
    mention low high launcher m.2 = mention low high launcher m.1 := by
  have hregistered : Registered low high m.2 ↔ Registered low high m.1 := h.registered_iff hm
  simp only [mention, hregistered, h.names_iff hlog hm launcher]

/-- **What a log adds to the number.** -/
theorem ActionLog.Lawful.gain_effect (h : log.Lawful)
    (hplain : log.Rewrites → ∀ m ∈ log.replacements, Registered low high m.1)
    (hadded : ∀ v ∈ log.added, Registered low high v) :
    log.effect.gain (mention low high launcher)
      = (if log.Gains launcher then 1 else 0) - (if log.Loses launcher then 1 else 0) := by
  rw [gain_effect_eq]
  by_cases hlog : log.Rewrites
  · obtain ⟨m, hm, hnone⟩ := hlog.exists_replacement
    have hregistered := hplain hlog m (by simp [hm])
    have hregistered' : Registered low high m.2 := (h.registered_iff (by simp [hm])).2 hregistered
    have hgains : log.Gains launcher ↔ m.2.Names launcher ∧ ¬ m.1.Names launcher := by
      simp [Gains, hm, hnone]
    have hloses : log.Loses launcher ↔ m.1.Names launcher ∧ ¬ m.2.Names launcher := by
      simp [Loses, hm]
    simp only [hm, hnone, List.map_cons, List.map_nil, List.sum_cons, List.sum_nil, mention,
      hregistered, hregistered', true_and, hgains, hloses]
    by_cases hbefore : m.1.Names launcher
    · by_cases hafter : m.2.Names launcher
      · simp [hbefore, hafter]
      · simp [hbefore, hafter]
    · by_cases hafter : m.2.Names launcher
      · simp [hbefore, hafter]
      · simp [hbefore, hafter]
  · have hsame : (log.replacements.map fun m => mention low high launcher m.2)
        = log.replacements.map fun m => mention low high launcher m.1 :=
      List.map_congr_left fun m hm => h.mention_eq hlog hm
    have hgains : log.Gains launcher ↔ ∃ v ∈ log.added, v.Names launcher := by
      refine ⟨fun hg => hg.elim id ?_, Or.inl⟩
      rintro ⟨m, hm, hafter, hbefore⟩
      exact absurd ((h.names_iff hlog hm launcher).1 hafter) hbefore
    rw [hsame, sub_self, add_zero, if_neg (h.not_loses hlog), sub_zero]
    cases log with
    | register e =>
        have hv : Registered low high e.createdHandleSlot := hadded _ (List.mem_singleton_self _)
        simp only [hgains]
        simp [added, mention, hv]
    | _ => simp [hgains, added]

end

/-! ## The record of a launcher -/

/-- A record whose launcher a slot names again. -/
def FollowedSingleton.renamed (record : FollowedSingleton) : FollowedSingleton :=
  if record.referenceCount = 0 ∨ record.dereferenceHeight.isSome then record.bumped else record

theorem FollowedSingleton.renamed_renamed (record : FollowedSingleton) :
    record.renamed.renamed = record.renamed := by
  by_cases h : record.referenceCount = 0 ∨ record.dereferenceHeight.isSome
  · have hbumped : record.renamed = record.bumped := if_pos h
    have hpos : record.bumped.referenceCount ≠ 0 := by
      show min _ u32Max ≠ 0
      unfold u32Max
      omega
    rw [hbumped]
    unfold renamed
    rw [if_neg]
    rintro (h | h)
    · exact hpos h
    · cases h
  · have hsame : record.renamed = record := if_neg h
    rw [hsame, hsame]

theorem FollowedSingleton.renamed_launcherId (record : FollowedSingleton) :
    record.renamed.launcherId = record.launcherId := by
  unfold renamed
  split <;> rfl

section

variable {store : SingletonStore} {launcher other : Bytes} {height : ℕ}

theorem rereference_self : rereference store launcher launcher
    = (store launcher).map FollowedSingleton.renamed := by
  unfold rereference FollowedSingleton.renamed
  cases h : store launcher with
  | none => exact h
  | some record =>
      by_cases hrecord : record.referenceCount = 0 ∨ record.dereferenceHeight.isSome
      · simp [hrecord, SingletonStore.bumpReference, h]
      · simp [hrecord, h]

theorem rereference_of_ne (h : other ≠ launcher) :
    rereference store launcher other = store other := by
  unfold rereference
  cases store launcher with
  | none => rfl
  | some record =>
      by_cases hrecord : record.referenceCount = 0 ∨ record.dereferenceHeight.isSome
      · simp [hrecord, SingletonStore.bumpReference, Function.update_of_ne h]
      · simp [hrecord]

theorem dropReference_self : store.dropReference launcher height launcher
    = (store launcher).map fun record => record.dropped height := Function.update_self ..

theorem dropReference_of_ne (h : other ≠ launcher) :
    store.dropReference launcher height other = store other := Function.update_of_ne h ..

/-- An operation on one record after the other, no record twice unless that does not matter. -/
theorem foldl_apply {f : SingletonStore → Bytes → SingletonStore}
    {g : Option FollowedSingleton → Option FollowedSingleton}
    (hself : ∀ store launcher, f store launcher launcher = g (store launcher))
    (hne : ∀ store launcher other, other ≠ launcher → f store launcher other = store other)
    {launchers : List Bytes} (h : launchers.Nodup ∨ ∀ o, g (g o) = g o) :
    launchers.foldl f store launcher
      = if launcher ∈ launchers then g (store launcher) else store launcher := by
  induction launchers generalizing store with
  | nil => simp
  | cons l launchers ih =>
      have htail : launchers.Nodup ∨ ∀ o, g (g o) = g o := h.imp_left List.Nodup.of_cons
      rw [List.foldl_cons, ih htail]
      by_cases hl : launcher = l
      · subst hl
        rw [hself, if_pos (List.mem_cons_self ..)]
        by_cases hmem : launcher ∈ launchers
        · rw [if_pos hmem]
          exact h.elim (fun hnodup => absurd hmem (List.nodup_cons.1 hnodup).1) fun hg => hg _
        · rw [if_neg hmem]
      · rw [hne _ _ _ hl]
        simp [hl]

theorem mem_dereferencedLaunchers {spent created : HandleSlotValue} :
    launcher ∈ dereferencedLaunchers spent created
      ↔ spent.Names launcher ∧ ¬ created.Names launcher := by
  unfold dereferencedLaunchers HandleSlotValue.Names
  by_cases howner : launcher = spent.ownerLauncherId
  · subst howner
    by_cases hsame : spent.ownerLauncherId = spent.resolvedLauncherId
    · simp [hsame]
    · simp [hsame]
  · by_cases hresolved : launcher = spent.resolvedLauncherId
    · subst hresolved
      simp [howner]
    · simp [howner, hresolved]

theorem nodup_dereferencedLaunchers (spent created : HandleSlotValue) :
    (dereferencedLaunchers spent created).Nodup := by
  unfold dereferencedLaunchers
  refine List.Nodup.append ?_ ?_ ?_
  · split <;> simp
  · split <;> simp
  · intro l hl hl'
    simp only [Bool.not_eq_eq_eq_not, Bool.not_true, decide_eq_false_iff_not, List.mem_ite_nil_right,
      List.mem_singleton] at hl hl'
    exact hl'.1.1 (hl'.2.symm.trans hl.2)

/-- The launchers that a slot no longer names are dropped. -/
theorem foldl_dropReference (spent created : HandleSlotValue) :
    (dereferencedLaunchers spent created).foldl
        (fun store launcher => store.dropReference launcher height) store launcher
      = if spent.Names launcher ∧ ¬ created.Names launcher then
          (store launcher).map fun record => record.dropped height
        else store launcher := by
  rw [foldl_apply (fun _ _ => dropReference_self) (fun _ _ _ => dropReference_of_ne)
    (Or.inl (nodup_dereferencedLaunchers spent created))]
  simp only [mem_dereferencedLaunchers]

/-- The launchers that a slot names are looked at again. -/
theorem foldl_rereference (created : HandleSlotValue) :
    [created.ownerLauncherId, created.resolvedLauncherId].foldl rereference store launcher
      = if created.Names launcher then (store launcher).map FollowedSingleton.renamed
        else store launcher := by
  have hidem : ∀ o : Option FollowedSingleton,
      (o.map FollowedSingleton.renamed).map FollowedSingleton.renamed
        = o.map FollowedSingleton.renamed := by
    intro o
    rw [Option.map_map]
    exact congrArg (o.map ·) (funext FollowedSingleton.renamed_renamed)
  rw [foldl_apply (fun _ _ => rereference_self) (fun _ _ _ => rereference_of_ne) (Or.inr hidem)]
  refine if_congr ?_ rfl rfl
  unfold HandleSlotValue.Names
  simp

/-- What a replaced slot does to a record. -/
theorem trackReplacement_apply (m : HandleSlotValue × HandleSlotValue) :
    trackReplacement height store m launcher
      = if m.1.Names launcher ∧ ¬ m.2.Names launcher then
          (store launcher).map fun record => record.dropped height
        else if m.2.Names launcher then (store launcher).map FollowedSingleton.renamed
        else store launcher := by
  unfold trackReplacement
  rw [foldl_rereference, foldl_dropReference]
  by_cases hafter : m.2.Names launcher
  · simp [hafter]
  · simp [hafter]

/-- Slots that keep their data drop no launcher. -/
theorem foldl_trackReplacement {ms : List (HandleSlotValue × HandleSlotValue)}
    (h : ∀ m ∈ ms, m.2.Names launcher ↔ m.1.Names launcher) :
    ms.foldl (trackReplacement height) store launcher
      = if ∃ m ∈ ms, m.2.Names launcher then (store launcher).map FollowedSingleton.renamed
        else store launcher := by
  induction ms generalizing store with
  | nil => simp
  | cons m ms ih =>
      have hkept : ¬ (m.1.Names launcher ∧ ¬ m.2.Names launcher) :=
        fun hlost => hlost.2 ((h m (List.mem_cons_self ..)).2 hlost.1)
      rw [List.foldl_cons, ih fun m' hm' => h m' (List.mem_cons_of_mem _ hm'),
        trackReplacement_apply, if_neg hkept]
      by_cases hafter : m.2.Names launcher
      · simp only [List.mem_cons, exists_eq_or_imp, hafter, true_or, if_true, Option.map_map]
        split
        · exact congrArg (Option.map · _) (funext FollowedSingleton.renamed_renamed)
        · rfl
      · simp only [List.mem_cons, exists_eq_or_imp, hafter, false_or, if_false]

/-- **What the slots of a log do to a record.** -/
theorem trackSlotReferenceChanges_apply {log : ActionLog} (h : log.Lawful) :
    trackSlotReferenceChanges height store log launcher
      = if log.Loses launcher then (store launcher).map fun record => record.dropped height
        else if log.Renames launcher then (store launcher).map FollowedSingleton.renamed
        else store launcher := by
  unfold trackSlotReferenceChanges
  by_cases hlog : log.Rewrites
  · obtain ⟨m, hm, -⟩ := hlog.exists_replacement
    simp only [ActionLog.Loses, ActionLog.Renames, hm, List.foldl_cons, List.foldl_nil,
      List.mem_singleton, exists_eq_left, trackReplacement_apply]
  · rw [if_neg (h.not_loses hlog), foldl_trackReplacement fun m hm => h.names_iff hlog hm launcher]
    rfl

end

/-! ## The launchers that are looked for -/

section

variable {spent created : List HandleSlotValue} {owner resolved : Bytes} {puzzles : ApprovalPuzzles}

theorem nodup_refsFromTransition : ((refsFromTransition spent created owner resolved puzzles).map
    SingletonReference.launcherId).Nodup := by
  unfold refsFromTransition
  dsimp only
  rw [List.map_append]
  refine List.Nodup.append ?_ ?_ ?_
  · split <;> simp
  · cases puzzles.resolvedFullPuzzleHash <;> split <;> simp
  · intro l hl hl'
    have howner : l = owner := by
      split at hl
      · simpa using hl
      · cases hl
    have hresolved : owner ≠ resolved ∧ l = resolved := by
      split at hl'
      · next h =>
          cases hfull : puzzles.resolvedFullPuzzleHash with
          | none => simp [hfull] at hl'
          | some full => exact ⟨h.1, by simpa [hfull] using hl'⟩
      · cases hl'
    exact hresolved.1 (howner.symm.trans hresolved.2)

/-- A launcher that is looked for is named, and was not named by any slot spent. -/
theorem mem_refsFromTransition {launcher : Bytes}
    (h : launcher ∈ (refsFromTransition spent created owner resolved puzzles).map
      SingletonReference.launcherId) :
    (launcher = owner ∨ launcher = resolved) ∧ ∀ v ∈ spent, ¬ v.Names launcher := by
  unfold refsFromTransition at h
  dsimp only at h
  have hfresh : ∀ l, (!(spent.flatMap fun s => [s.ownerLauncherId, s.resolvedLauncherId]).contains l)
      = true → ∀ v ∈ spent, ¬ v.Names l := by
    intro l hl v hv hnames
    have hmem : l ∈ spent.flatMap fun s => [s.ownerLauncherId, s.resolvedLauncherId] :=
      List.mem_flatMap.2 ⟨v, hv, by simpa [HandleSlotValue.Names] using hnames⟩
    rw [List.contains_iff_mem.2 hmem] at hl
    cases hl
  rw [List.map_append, List.mem_append] at h
  rcases h with h | h
  · split at h
    · next hnew =>
        obtain rfl : launcher = owner := by simpa using h
        exact ⟨Or.inl rfl, hfresh _ (Bool.and_eq_true_iff.1 hnew).2⟩
    · cases h
  · split at h
    · next hnew =>
        cases hfull : puzzles.resolvedFullPuzzleHash with
        | none => simp [hfull] at h
        | some full =>
            obtain rfl : launcher = resolved := by simpa [hfull] using h
            exact ⟨Or.inr rfl, hfresh _ (Bool.and_eq_true_iff.1 hnew.2).2⟩
    · cases h

end

theorem ActionLog.nodup_referenced (log : ActionLog) : log.referenced.Nodup := by
  unfold referenced
  cases log with
  | register e => exact nodup_refsFromTransition
  | expire e => exact nodup_refsFromTransition
  | executeUpdate e => exact nodup_refsFromTransition
  | _ => exact List.nodup_nil

/-- A launcher that is looked for has one more slot that names it. -/
theorem ActionLog.gains_of_referenced {log : ActionLog} {launcher : Bytes}
    (h : launcher ∈ log.referenced) : log.Gains launcher := by
  unfold referenced at h
  cases log with
  | register e =>
      exact Or.inl ⟨_, List.mem_singleton_self _, (mem_refsFromTransition h).1⟩
  | expire e =>
      obtain ⟨hnames, hfresh⟩ := mem_refsFromTransition h
      exact Or.inr ⟨_, List.mem_singleton_self _, hnames, hfresh _ (List.mem_singleton_self _)⟩
  | executeUpdate e =>
      obtain ⟨hnames, hfresh⟩ := mem_refsFromTransition h
      exact Or.inr ⟨_, List.mem_singleton_self _, hnames, hfresh _ (List.mem_singleton_self _)⟩
  | _ => cases h

/-- No launcher is gained and lost. -/
theorem ActionLog.Lawful.not_gains {log : ActionLog} (h : log.Lawful) {launcher : Bytes}
    (hloses : log.Loses launcher) : ¬ log.Gains launcher ∧ ¬ log.Renames launcher := by
  by_cases hlog : log.Rewrites
  · obtain ⟨m, hm, hnone⟩ := hlog.exists_replacement
    simp only [Loses, hm, List.mem_singleton, exists_eq_left] at hloses
    simp [Gains, Renames, hm, hnone, hloses]
  · exact absurd hloses (h.not_loses hlog)

/-! ## Discovery -/

/-- The count of a launcher that was looked for. -/
def discoveredCount : Option FollowedSingleton → ℕ
  | none => 1
  | some record =>
      if record.Followed then saturatingAdd record.referenceCount 1
      else max record.referenceCount 1

/-- Every record is stored under its launcher. -/
def SingletonStore.Keyed (store : SingletonStore) : Prop :=
  ∀ launcher, ∀ record ∈ store launcher, record.launcherId = launcher

/-- The records of two stores are the same but for one launcher. -/
def SingletonStore.AgreesBut (launcher : Bytes) (store store' : SingletonStore) : Prop :=
  ∀ other, other ≠ launcher → store' other = store other

/-- A launcher that was looked for has a record with this count. -/
structure Discovered (before : Option FollowedSingleton) (launcher : Bytes)
    (after : FollowedSingleton) : Prop where
  launcherId_eq : after.launcherId = launcher
  referenceCount_eq : after.referenceCount = discoveredCount before
  dereferenceHeight_eq : after.dereferenceHeight = none

section

variable {Spend : Type} {D : Driver Spend} {height : ℕ} {spends : List Spend}
variable {store store' : SingletonStore} {launcher : Bytes}

/-- **What discovery does to the records.** -/
theorem discoverReference_eq {reference : SingletonReference} (hkeyed : store.Keyed)
    (h : discoverReference D height spends store reference = (store', none)) :
    store.AgreesBut reference.launcherId store' ∧ ∃ record,
      store' reference.launcherId = some record ∧
        Discovered (store reference.launcherId) reference.launcherId record := by
  unfold discoverReference at h
  dsimp only at h
  by_cases hfollowed : ∃ record, store reference.launcherId = some record ∧ record.Followed
  · rw [if_pos hfollowed] at h
    obtain ⟨record, hrecord, hrecord'⟩ := hfollowed
    obtain rfl := (Prod.mk.inj h).1
    refine ⟨fun other hother => Function.update_of_ne hother .., record.bumped, ?_, ?_, ?_, rfl⟩
    · unfold SingletonStore.bumpReference
      rw [Function.update_self, hrecord, Option.map_some]
    · exact hkeyed _ record hrecord
    · rw [hrecord]
      exact (if_pos hrecord').symm
  · rw [if_neg hfollowed] at h
    cases hresult : discoverSingletonInBlock D spends reference with
    | error e =>
        rw [hresult] at h
        cases h
    | ok result =>
        rw [hresult] at h
        obtain rfl := (Prod.mk.inj h).1
        refine ⟨fun other hother => Function.update_of_ne hother .., _, Function.update_self ..,
          rfl, ?_, rfl⟩
        cases hrecord : store reference.launcherId with
        | none => rfl
        | some record => exact (if_neg fun hrecord' => hfollowed ⟨record, hrecord, hrecord'⟩).symm

/-- The launchers that are looked for in a log have a record with this count, and the
others keep theirs. -/
theorem forEach_discoverReference {references : List SingletonReference}
    (hkeyed : store.Keyed) (hnodup : (references.map SingletonReference.launcherId).Nodup)
    (h : forEach (discoverReference D height spends) store references = (store', none)) :
    (launcher ∉ references.map SingletonReference.launcherId → store' launcher = store launcher) ∧
      (launcher ∈ references.map SingletonReference.launcherId →
        ∃ record, store' launcher = some record ∧
          Discovered (store launcher) launcher record) := by
  induction references generalizing store with
  | nil =>
      obtain rfl := (Prod.mk.inj h).1
      exact ⟨fun _ => rfl, fun hmem => absurd hmem List.not_mem_nil⟩
  | cons reference references ih =>
      unfold forEach at h
      rw [List.map_cons, List.nodup_cons] at hnodup
      cases hfirst : discoverReference D height spends store reference with
      | mk store₁ error =>
          cases error with
          | some e =>
              rw [hfirst] at h
              cases h
          | none =>
              rw [hfirst] at h
              obtain ⟨hagrees, record, hrecord, hdiscovered⟩ := discoverReference_eq hkeyed hfirst
              have hkeyed₁ : store₁.Keyed := by
                intro l r hr
                by_cases hl : l = reference.launcherId
                · subst hl
                  rw [hrecord] at hr
                  obtain rfl := Option.some.inj hr
                  exact hdiscovered.launcherId_eq
                · rw [hagrees l hl] at hr
                  exact hkeyed l r hr
              obtain ⟨hother, hmem⟩ := ih hkeyed₁ hnodup.2 h
              rw [List.map_cons, List.mem_cons]
              by_cases hl : launcher = reference.launcherId
              · subst hl
                refine ⟨fun hnot => absurd (Or.inl rfl) hnot, fun _ => ⟨record, ?_, hdiscovered⟩⟩
                rw [hother hnodup.1, hrecord]
              · rw [← hagrees launcher hl]
                refine ⟨fun hnot => hother fun h => hnot (Or.inr h), fun h => hmem ?_⟩
                exact h.resolve_left hl

end

/-! ## One log -/

section

variable {Spend : Type} {D : Driver Spend} {height : ℕ} {spends : List Spend}
variable {store store' : SingletonStore} {launcher : Bytes} {log : ActionLog}

/-- **What a log does to a record.** -/
theorem onActionLog_apply (hlog : log.Lawful) (hkeyed : store.Keyed)
    (h : onActionLog D height spends store log = (store', none)) (launcher : Bytes) :
    (launcher ∈ log.referenced → ∃ record, store' launcher = some record ∧
      Discovered (store launcher) launcher record) ∧
    (launcher ∉ log.referenced → store' launcher
      = if log.Loses launcher then (store launcher).map fun record => record.dropped height
        else if log.Renames launcher then (store launcher).map FollowedSingleton.renamed
        else store launcher) := by
  unfold onActionLog at h
  cases hdiscover : forEach (discoverReference D height spends) store
      (referencesFromActionLog log) with
  | mk store₁ error =>
      cases error with
      | some e =>
          rw [hdiscover] at h
          cases h
      | none =>
          rw [hdiscover] at h
          obtain rfl := (Prod.mk.inj h).1
          obtain ⟨hother, hmem⟩ :=
            @forEach_discoverReference _ _ _ _ _ _ launcher _ hkeyed log.nodup_referenced hdiscover
          rw [trackSlotReferenceChanges_apply hlog]
          refine ⟨fun hl => ?_, fun hl => by rw [hother hl]⟩
          obtain ⟨record, hrecord, hdiscovered⟩ := hmem hl
          have hpos : record.referenceCount ≠ 0 := by
            rw [hdiscovered.referenceCount_eq]
            unfold discoveredCount saturatingAdd u32Max
            split
            · omega
            · split <;> omega
          have hnot : ¬ log.Loses launcher := fun hloses =>
            (hlog.not_gains hloses).1 (ActionLog.gains_of_referenced hl)
          have hsame : record.renamed = record := by
            unfold FollowedSingleton.renamed
            rw [if_neg]
            rintro (hzero | hsome)
            · exact hpos hzero
            · rw [hdiscovered.dereferenceHeight_eq] at hsome
              cases hsome
          refine ⟨record, ?_, hdiscovered⟩
          rw [if_neg hnot, hrecord, Option.map_some, hsame, ite_self]

theorem keyed_onActionLog (hlog : log.Lawful) (hkeyed : store.Keyed)
    (h : onActionLog D height spends store log = (store', none)) : store'.Keyed := by
  intro l record hrecord
  obtain ⟨hmem, hother⟩ := onActionLog_apply hlog hkeyed h l
  by_cases hl : l ∈ log.referenced
  · obtain ⟨record', hrecord', hdiscovered⟩ := hmem hl
    rw [hrecord'] at hrecord
    rw [← Option.some.inj hrecord]
    exact hdiscovered.launcherId_eq
  · rw [hother hl] at hrecord
    have hsame : ∃ record' ∈ store l, record.launcherId = record'.launcherId := by
      split at hrecord
      · obtain ⟨record', hrecord', rfl⟩ := Option.map_eq_some_iff.1 hrecord
        exact ⟨record', hrecord', rfl⟩
      · split at hrecord
        · obtain ⟨record', hrecord', rfl⟩ := Option.map_eq_some_iff.1 hrecord
          exact ⟨record', hrecord', record'.renamed_launcherId⟩
        · exact ⟨record, hrecord, rfl⟩
    obtain ⟨record', hrecord', heq⟩ := hsame
    rw [heq]
    exact hkeyed l record' hrecord'

end

end SlotMachine.Listener
