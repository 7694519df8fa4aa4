import SlotMachine.Listener.References

/-!
# Reference counts

A record should count the handle slots that name its launcher.  The indexer counts
by what the logs gain and lose, and looks at no slot.

* `Tallies` — a record goes with a number of slots.
* `CountedAt`, `tallies_iff` — **when one log changes the count as it changes the slots**.
* `Tallies.onBlock` — a block changes no count.
* `Processed.tallies` — **in a run of such logs the counts are right all the time**.
-/

namespace SlotMachine.Listener

open Settlement

/-! ## One log -/

/-- A record, or the lack of one, goes with `n` slots that name the launcher, the
last one of them lost at the height `lost`. -/
structure Tallies (n : ℤ) (lost : Option ℕ) (o : Option FollowedSingleton) : Prop where
  count_eq : ∀ record ∈ o, (record.referenceCount : ℤ) = n
  dereferenceHeight_eq : ∀ record ∈ o, record.dereferenceHeight = if n = 0 then lost else none
  lost_isSome : ∀ record ∈ o, n = 0 → lost.isSome
  eq_zero : o = none → n = 0

/-- **When a log changes the count as it changes the slots.**  A launcher gained must
be looked for, and a record that is not followed must have had no slot; a launcher
lost must have had one, and so must one that is named again. -/
structure CountedAt (log : ActionLog) (launcher : Bytes) (o : Option FollowedSingleton) : Prop where
  referenced : launcher ∈ log.referenced → ∀ record ∈ o, record.referenceCount = 0 ∨
    record.Followed ∧ record.referenceCount < u32Max
  gained : log.Gains launcher → launcher ∉ log.referenced → log.Renames launcher ∧
    ∃ record ∈ o, record.referenceCount = 0
  lost : log.Loses launcher → ∃ record ∈ o, 0 < record.referenceCount
  renamed : log.Renames launcher → ¬ log.Gains launcher → ∀ record ∈ o, 0 < record.referenceCount

section

variable {Spend : Type} {D : Driver Spend} {height : ℕ} {spends : List Spend}
variable {store store' : SingletonStore} {launcher : Bytes} {log : ActionLog}

theorem Tallies.nonneg {n : ℤ} {lost : Option ℕ} {o : Option FollowedSingleton}
    (h : Tallies n lost o) : 0 ≤ n := by
  cases o with
  | none => exact (h.eq_zero rfl).ge
  | some record =>
      rw [← h.count_eq record rfl]
      exact Int.natCast_nonneg _

/-- A record with a count and no height. -/
theorem tallies_some_iff {n : ℤ} {lost : Option ℕ} {record : FollowedSingleton} (hn : n ≠ 0)
    (h : record.dereferenceHeight = none) :
    Tallies n lost (some record) ↔ (record.referenceCount : ℤ) = n := by
  refine ⟨fun ht => ht.count_eq record rfl, fun heq => ⟨?_, ?_, ?_, fun h => by cases h⟩⟩
  · intro record' hrecord'
    rw [← Option.some.inj hrecord']
    exact heq
  · intro record' hrecord'
    rw [← Option.some.inj hrecord', if_neg hn]
    exact h
  · exact fun _ _ hzero => absurd hzero hn

/-- Discovery adds one to a count of zero, and to that of a record that is followed. -/
theorem discoveredCount_eq_iff {n : ℤ} {lost : Option ℕ} {o : Option FollowedSingleton}
    (h : Tallies n lost o) : (discoveredCount o : ℤ) = n + 1 ↔
      ∀ record ∈ o, record.referenceCount = 0 ∨
        record.Followed ∧ record.referenceCount < u32Max := by
  cases o with
  | none =>
      rw [h.eq_zero rfl]
      simp [discoveredCount]
  | some record =>
      have hcount := h.count_eq record rfl
      simp only [Option.mem_def, Option.some.injEq, forall_eq']
      unfold discoveredCount saturatingAdd u32Max
      dsimp only
      by_cases hfollowed : record.Followed
      · rw [if_pos hfollowed]
        simp only [hfollowed, true_and]
        omega
      · rw [if_neg hfollowed]
        simp only [hfollowed, false_and, or_false]
        omega

/-- A record that had no slot is counted when a slot names it again. -/
theorem renamed_of_zero {record : FollowedSingleton} (h : record.referenceCount = 0) :
    record.renamed.referenceCount = 1 ∧ record.renamed.dereferenceHeight = none := by
  have hbumped : record.renamed = record.bumped := if_pos (Or.inl h)
  rw [hbumped]
  refine ⟨?_, rfl⟩
  show min (record.referenceCount + 1) u32Max = 1
  rw [h]
  rfl

/-- A record that has a slot stays as it is. -/
theorem Tallies.renamed_of_pos {n : ℤ} {lost : Option ℕ} {record : FollowedSingleton}
    (h : Tallies n lost (some record)) (hpos : 0 < record.referenceCount) :
    record.renamed = record := by
  have hn : n ≠ 0 := by
    have hcount := h.count_eq record rfl
    omega
  have hheight := h.dereferenceHeight_eq record rfl
  rw [if_neg hn] at hheight
  unfold FollowedSingleton.renamed
  rw [if_neg]
  rintro (hzero | hsome)
  · omega
  · rw [hheight] at hsome
    cases hsome

/-- A record that loses a slot. -/
theorem Tallies.dropped_iff {n : ℤ} {lost : Option ℕ} {record : FollowedSingleton}
    (h : Tallies n lost (some record)) :
    Tallies (n - 1) (some height) (some (record.dropped height)) ↔ 0 < record.referenceCount := by
  have hcount := h.count_eq record rfl
  have hheight := h.dereferenceHeight_eq record rfl
  constructor
  · intro ht
    have hnonneg := ht.nonneg
    omega
  · intro hpos
    rw [if_neg (by omega)] at hheight
    refine ⟨?_, ?_, fun _ _ _ => rfl, fun h => by cases h⟩
    · intro record' hrecord'
      rw [← Option.some.inj hrecord']
      show ((record.referenceCount - 1 : ℕ) : ℤ) = n - 1
      omega
    · intro record' hrecord'
      rw [← Option.some.inj hrecord']
      show (if record.referenceCount - 1 = 0 then some height else record.dereferenceHeight) = _
      rw [hheight]
      refine if_congr ?_ rfl rfl
      omega

/-- **A log changes the count as it changes the slots exactly under this condition.** -/
theorem tallies_iff (hlog : log.Lawful) (hkeyed : store.Keyed) {n : ℤ} {lost : Option ℕ}
    (h : onActionLog D height spends store log = (store', none))
    (ht : Tallies n lost (store launcher)) :
    Tallies (n + ((if log.Gains launcher then 1 else 0) - (if log.Loses launcher then 1 else 0)))
        (if log.Loses launcher then some height else lost) (store' launcher)
      ↔ CountedAt log launcher (store launcher) := by
  obtain ⟨hmem, hother⟩ := onActionLog_apply hlog hkeyed h launcher
  have hnonneg := ht.nonneg
  by_cases href : launcher ∈ log.referenced
  · -- the launcher is looked for
    have hgains := ActionLog.gains_of_referenced href
    have hloses : ¬ log.Loses launcher := fun hl => (hlog.not_gains hl).1 hgains
    obtain ⟨record, hrecord, hdiscovered⟩ := hmem href
    rw [if_pos hgains, if_neg hloses, if_neg hloses, sub_zero, hrecord,
      tallies_some_iff (by omega) hdiscovered.dereferenceHeight_eq, hdiscovered.referenceCount_eq,
      discoveredCount_eq_iff ht]
    refine ⟨fun hc => ⟨fun _ => hc, fun _ hnot => absurd href hnot, fun hl => absurd hl hloses,
      fun _ hnot => absurd hgains hnot⟩, fun hc => hc.referenced href⟩
  · rw [hother href]
    by_cases hloses : log.Loses launcher
    · -- a slot no longer names it
      obtain ⟨hgains, hrenames⟩ := hlog.not_gains hloses
      rw [if_neg hgains, if_pos hloses, if_pos hloses, if_pos hloses, zero_sub,
        ← sub_eq_add_neg]
      have hiff : CountedAt log launcher (store launcher)
          ↔ ∃ record ∈ store launcher, 0 < record.referenceCount :=
        ⟨fun hc => hc.lost hloses, fun hc => ⟨fun hl => absurd hl href, fun hg => absurd hg hgains,
          fun _ => hc, fun hr => absurd hr hrenames⟩⟩
      rw [hiff]
      cases hrecord : store launcher with
      | none =>
          rw [hrecord] at ht
          have hzero := ht.eq_zero rfl
          refine ⟨fun h => ?_, fun ⟨_, h, _⟩ => by cases h⟩
          have hneg := h.nonneg
          omega
      | some record =>
          rw [hrecord] at ht
          rw [Option.map_some, ht.dropped_iff]
          simp
    · rw [if_neg hloses, if_neg hloses, if_neg hloses, sub_zero]
      by_cases hgains : log.Gains launcher
      · -- a slot names it that no discovery looks for
        rw [if_pos hgains]
        have hiff : CountedAt log launcher (store launcher) ↔ log.Renames launcher ∧
            ∃ record ∈ store launcher, record.referenceCount = 0 :=
          ⟨fun hc => hc.gained hgains href, fun hc => ⟨fun hl => absurd hl href, fun _ _ => hc,
            fun hl => absurd hl hloses, fun _ hnot => absurd hgains hnot⟩⟩
        rw [hiff]
        cases hrecord : store launcher with
        | none =>
            rw [hrecord] at ht
            have hzero := ht.eq_zero rfl
            refine ⟨fun h => ?_, fun ⟨_, _, h, _⟩ => by cases h⟩
            have hone : n + 1 = 0 := h.eq_zero (by simp)
            omega
        | some record =>
            rw [hrecord] at ht
            have hcount := ht.count_eq record rfl
            simp only [Option.map_some, Option.mem_def, Option.some.injEq, exists_eq_left']
            by_cases hzero : record.referenceCount = 0
            · obtain ⟨hone, hnone⟩ := renamed_of_zero hzero
              by_cases hrenames : log.Renames launcher
              · rw [if_pos hrenames, tallies_some_iff (by omega) hnone, hone]
                simp only [hrenames, hzero, true_and, iff_true]
                omega
              · rw [if_neg hrenames]
                simp only [hrenames, false_and, iff_false]
                intro h
                have hcount' := h.count_eq record rfl
                omega
            · rw [ht.renamed_of_pos (by omega), ite_self]
              simp only [hzero, and_false, iff_false]
              intro h
              have hcount' := h.count_eq record rfl
              omega
      · rw [if_neg hgains, add_zero]
        by_cases hrenames : log.Renames launcher
        · -- a slot names it as before
          rw [if_pos hrenames]
          have hiff : CountedAt log launcher (store launcher) ↔
              ∀ record ∈ store launcher, 0 < record.referenceCount :=
            ⟨fun hc => hc.renamed hrenames hgains, fun hc => ⟨fun hl => absurd hl href,
              fun hg => absurd hg hgains, fun hl => absurd hl hloses, fun _ _ => hc⟩⟩
          rw [hiff]
          cases hrecord : store launcher with
          | none =>
              rw [hrecord] at ht
              simp [ht]
          | some record =>
              rw [hrecord] at ht
              have hcount := ht.count_eq record rfl
              simp only [Option.map_some, Option.mem_def, Option.some.injEq, forall_eq']
              by_cases hzero : record.referenceCount = 0
              · obtain ⟨hone, hnone⟩ := renamed_of_zero hzero
                refine ⟨fun h => ?_, fun hpos => absurd hzero hpos.ne'⟩
                have hcount' := h.count_eq _ rfl
                rw [hone] at hcount'
                omega
              · rw [ht.renamed_of_pos (by omega)]
                exact ⟨fun _ => Nat.pos_of_ne_zero hzero, fun _ => ht⟩
        · rw [if_neg hrenames]
          exact ⟨fun _ => ⟨fun hl => absurd hl href, fun hg => absurd hg hgains,
            fun hl => absurd hl hloses, fun hr => absurd hr hrenames⟩, fun _ => ht⟩

end

/-! ## Blocks -/

/-- What a block leaves as it is. -/
def FollowedSingleton.tally (record : FollowedSingleton) : Bytes × ℕ × Option ℕ :=
  (record.launcherId, record.referenceCount, record.dereferenceHeight)

section

variable {Spend : Type} {D : Driver Spend} {height : ℕ} {spends : List Spend}
variable {store store' : SingletonStore} {launcher : Bytes}

theorem retryDiscovery_tally {record record' : FollowedSingleton}
    (h : retryDiscovery D height spends record = .ok record') : record'.tally = record.tally := by
  unfold retryDiscovery at h
  cases hresult : discoverSingletonInBlock D spends ⟨record.launcherId,
      record.expectedFullPuzzleHash, record.expectedInnerPuzzleHash⟩ with
  | error e =>
      rw [hresult] at h
      cases h
  | ok result =>
      rw [hresult] at h
      cases result <;> cases h <;> rfl

theorem stepRecord_tally {record record' : FollowedSingleton}
    (h : stepRecord D height spends launcher record = .ok record') :
    record'.tally = record.tally := by
  unfold stepRecord at h
  split at h
  · exact retryDiscovery_tally h
  · split at h
    · cases h
      rfl
    · split at h
      · cases h
        rfl
      · next spend _ =>
          cases hspend : D.followSingletonSpend spend launcher with
          | error e =>
              rw [hspend] at h
              cases h
          | ok result =>
              rw [hspend] at h
              cases h
              rfl
  · cases h
    rfl

theorem stepLauncher_tally (hkeyed : store.Keyed) (id launcher : Bytes) :
    ((stepLauncher D height spends store id).1 launcher).map FollowedSingleton.tally
      = (store launcher).map FollowedSingleton.tally := by
  unfold stepLauncher
  cases hrecord : store id with
  | none => rfl
  | some record =>
      dsimp only
      cases hstep : stepRecord D height spends id record with
      | error e => rfl
      | ok record' =>
          have htally := stepRecord_tally hstep
          have hid : record'.launcherId = id :=
            (congrArg Prod.fst htally).trans (hkeyed id record hrecord)
          show ((store.upsert record') launcher).map _ = _
          unfold SingletonStore.upsert
          rw [hid]
          by_cases hl : launcher = id
          · rw [hl, Function.update_self, hrecord, Option.map_some, Option.map_some, htally]
          · rw [Function.update_of_ne hl]

/-- A store is keyed if its tallies are. -/
theorem keyed_of_tally (hkeyed : store.Keyed)
    (h : ∀ launcher, (store' launcher).map FollowedSingleton.tally
      = (store launcher).map FollowedSingleton.tally) : store'.Keyed := by
  intro l record hrecord
  have hl := h l
  rw [hrecord] at hl
  cases hrecord' : store l with
  | none =>
      rw [hrecord'] at hl
      cases hl
  | some record' =>
      rw [hrecord', Option.map_some, Option.map_some, Option.some.injEq] at hl
      exact (congrArg Prod.fst hl).trans (hkeyed l record' hrecord')

theorem forEach_stepLauncher_tally {ids : List Bytes} (hkeyed : store.Keyed) (launcher : Bytes) :
    ((forEach (stepLauncher D height spends) store ids).1 launcher).map FollowedSingleton.tally
      = (store launcher).map FollowedSingleton.tally := by
  induction ids generalizing store with
  | nil => rfl
  | cons id ids ih =>
      have hstep : ∀ launcher, ((stepLauncher D height spends store id).1 launcher).map
          FollowedSingleton.tally = (store launcher).map FollowedSingleton.tally :=
        stepLauncher_tally hkeyed id
      unfold forEach
      cases hfirst : stepLauncher D height spends store id with
      | mk store₁ error =>
          rw [hfirst] at hstep
          cases error with
          | some e => exact hstep launcher
          | none => exact (ih (keyed_of_tally hkeyed hstep)).trans (hstep launcher)

/-- A record with the same tally counts as many slots. -/
theorem Tallies.of_tally {n : ℤ} {lost : Option ℕ} {o o' : Option FollowedSingleton}
    (h : Tallies n lost o) (heq : o'.map FollowedSingleton.tally = o.map FollowedSingleton.tally) :
    Tallies n lost o' := by
  cases o with
  | none =>
      cases o' with
      | none => exact h
      | some record' => cases heq
  | some record =>
      cases o' with
      | none => cases heq
      | some record' =>
          rw [Option.map_some, Option.map_some, Option.some.injEq] at heq
          have hcount : record'.referenceCount = record.referenceCount :=
            congrArg (fun t => t.2.1) heq
          have hheight : record'.dereferenceHeight = record.dereferenceHeight :=
            congrArg (fun t => t.2.2) heq
          refine ⟨?_, ?_, fun _ _ hzero => h.lost_isSome record rfl hzero, fun h => by cases h⟩
          · intro r hr
            rw [← Option.some.inj hr, hcount]
            exact h.count_eq record rfl
          · intro r hr
            rw [← Option.some.inj hr, hheight]
            exact h.dereferenceHeight_eq record rfl

/-- A record is removed at a peak if no slot names its launcher, and the last one that
did is 32 blocks old. -/
theorem Tallies.finalized_iff {n : ℤ} {lost : Option ℕ} {record : FollowedSingleton}
    (h : Tallies n lost (some record)) (peak : ℕ) :
    record.Finalized peak ↔ n = 0 ∧ ∃ d ∈ lost, saturatingAdd d 32 ≤ peak := by
  have hcount := h.count_eq record rfl
  have hheight := h.dereferenceHeight_eq record rfl
  unfold FollowedSingleton.Finalized
  by_cases hn : n = 0
  · rw [if_pos hn] at hheight
    rw [hheight]
    refine and_congr_left fun _ => ?_
    omega
  · have hpos : record.referenceCount ≠ 0 := by omega
    simp [hn, hpos]

/-- **What the clean-up does to a record.** -/
theorem Tallies.cleanupFinalized {n : ℤ} {lost : Option ℕ} (h : Tallies n lost (store launcher))
    (peak : ℕ) : SlotMachine.Listener.cleanupFinalized peak store launcher
      = if n = 0 ∧ ∃ d ∈ lost, saturatingAdd d 32 ≤ peak then none else store launcher := by
  unfold SlotMachine.Listener.cleanupFinalized
  cases hrecord : store launcher with
  | none => simp
  | some record =>
      rw [hrecord] at h
      simp only [← h.finalized_iff peak]
      by_cases hfinal : record.Finalized peak
      · simp [hfinal]
      · simp [hfinal]

/-- A block changes no count. -/
theorem Tallies.onBlock {n : ℤ} {lost : Option ℕ} {ids : List Bytes} (hkeyed : store.Keyed)
    (h : Tallies n lost (store launcher)) :
    Tallies n lost ((onBlock D ids height spends store).1 launcher) := by
  have hstep : Tallies n lost ((forEach (stepLauncher D height spends) store ids).1 launcher) :=
    h.of_tally (forEach_stepLauncher_tally hkeyed launcher)
  unfold SlotMachine.Listener.onBlock
  cases hall : forEach (stepLauncher D height spends) store ids with
  | mk store₁ error =>
      rw [hall] at hstep
      cases error with
      | some e => exact hstep
      | none =>
          show Tallies n lost (SlotMachine.Listener.cleanupFinalized height store₁ launcher)
          rw [hstep.cleanupFinalized]
          split
          · next hfinal => exact ⟨nofun, nofun, nofun, fun _ => hfinal.1⟩
          · exact hstep

theorem keyed_onBlock {ids : List Bytes} (hkeyed : store.Keyed) :
    (onBlock D ids height spends store).1.Keyed := by
  have hstep : (forEach (stepLauncher D height spends) store ids).1.Keyed :=
    keyed_of_tally hkeyed (forEach_stepLauncher_tally hkeyed)
  unfold onBlock
  cases hall : forEach (stepLauncher D height spends) store ids with
  | mk store₁ error =>
      rw [hall] at hstep
      cases error with
      | some e => exact hstep
      | none =>
          intro l record hrecord
          exact hstep l record (Option.mem_filter_iff.1 hrecord).1

end

/-! ## Runs -/

/-- A log that was processed at a height, and the records before it. -/
structure Tracked where
  height : ℕ
  log : ActionLog
  before : SingletonStore

/-- The records after some logs, and after blocks in between that may have failed. -/
inductive Processed {Spend : Type} (D : Driver Spend) : List Tracked → SingletonStore → Prop where
  | start : Processed D [] fun _ => none
  | log {past : List Tracked} {store store' : SingletonStore} {height : ℕ} {spends : List Spend}
      {log : ActionLog} : Processed D past store →
      onActionLog D height spends store log = (store', none) →
      Processed D (past ++ [⟨height, log, store⟩]) store'
  | block {past : List Tracked} {store : SingletonStore} (ids : List Bytes) (height : ℕ)
      (spends : List Spend) : Processed D past store →
      Processed D past (onBlock D ids height spends store).1

/-- The log changes every count as it changes the slots, and no sentinel is expired or
updated. -/
structure Tracked.Counted (low high : HandleSlotValue) (t : Tracked) : Prop where
  countedAt : ∀ launcher, CountedAt t.log launcher (t.before launcher)
  registered : t.log.Rewrites → ∀ m ∈ t.log.replacements, Registered low high m.1

/-- The height at which the launcher was last lost by a slot. -/
def lastLost (tracked : List Tracked) (launcher : Bytes) : Option ℕ :=
  ((tracked.filter fun t => decide (t.log.Loses launcher)).getLast?).map Tracked.height

section

variable {Spend : Type} {D : Driver Spend} {height : ℕ} {spends : List Spend}
variable {store store' : SingletonStore} {tracked : List Tracked} {low high : HandleSlotValue}

/-- `on_registry_transition` processes its logs. -/
theorem Processed.onRegistryTransition {logs : List ActionLog} (h : Processed D tracked store)
    (hlogs : onRegistryTransition D height spends store logs = (store', none)) :
    ∃ more : List Tracked, more.map Tracked.log = logs ∧ (∀ t ∈ more, t.height = height) ∧
      Processed D (tracked ++ more) store' := by
  unfold SlotMachine.Listener.onRegistryTransition at hlogs
  induction logs generalizing tracked store with
  | nil =>
      obtain rfl := (Prod.mk.inj hlogs).1
      exact ⟨[], rfl, by simp, by rwa [List.append_nil]⟩
  | cons log logs ih =>
      unfold forEach at hlogs
      cases hfirst : onActionLog D height spends store log with
      | mk store₁ error =>
          rw [hfirst] at hlogs
          cases error with
          | some e => cases hlogs
          | none =>
              obtain ⟨more, hmore, hheight, hrun⟩ := ih (h.log hfirst) hlogs
              refine ⟨⟨height, log, store⟩ :: more, by rw [List.map_cons, hmore], ?_, ?_⟩
              · intro t ht
                rcases List.mem_cons.1 ht with rfl | ht
                · rfl
                · exact hheight t ht
              · rw [List.append_assoc] at hrun
                exact hrun

theorem lastLost_append_singleton (t : Tracked) (launcher : Bytes) :
    lastLost (tracked ++ [t]) launcher
      = if t.log.Loses launcher then some t.height else lastLost tracked launcher := by
  unfold lastLost
  rw [List.filter_append]
  by_cases ht : t.log.Loses launcher
  · simp [ht]
  · simp [ht]

/-- **The counts are right all the time**, if every log changes them as it changes
the slots. -/
theorem Processed.tallies (h : Processed D tracked store)
    (hlawful : ∀ t ∈ tracked, t.log.Lawful)
    (hadded : ∀ t ∈ tracked, ∀ v ∈ t.log.added, Registered low high v)
    (hcounted : ∀ t ∈ tracked, t.Counted low high) :
    store.Keyed ∧ ∀ launcher, Tallies
      ((tracked.map fun t => t.log.effect.gain (mention low high launcher)).sum)
      (lastLost tracked launcher) (store launcher) := by
  induction h with
  | start => exact ⟨nofun, fun launcher => ⟨nofun, nofun, nofun, fun _ => rfl⟩⟩
  | @log past store store' height spends log _ hlog ih =>
      have hlast : (⟨height, log, store⟩ : Tracked) ∈ past ++ [⟨height, log, store⟩] := by simp
      have hpast : ∀ t ∈ past, t ∈ past ++ [⟨height, log, store⟩] :=
        fun t ht => List.mem_append_left _ ht
      obtain ⟨hkeyed, htallies⟩ := ih (fun t ht => hlawful t (hpast t ht))
        (fun t ht => hadded t (hpast t ht)) fun t ht => hcounted t (hpast t ht)
      have hlawful' : log.Lawful := hlawful _ hlast
      refine ⟨keyed_onActionLog hlawful' hkeyed hlog, fun launcher => ?_⟩
      rw [lastLost_append_singleton, List.map_append, List.sum_append, List.map_singleton,
        List.sum_singleton, hlawful'.gain_effect (hcounted _ hlast).registered (hadded _ hlast)]
      exact (tallies_iff hlawful' hkeyed hlog (htallies launcher)).2
        ((hcounted _ hlast).countedAt launcher)
  | block ids height spends _ ih =>
      obtain ⟨hkeyed, htallies⟩ := ih hlawful hadded hcounted
      exact ⟨keyed_onBlock hkeyed, fun launcher => (htallies launcher).onBlock hkeyed⟩

end

/-! ## The counts of a history -/

namespace ReferenceExample

open HistoryExample (Registration first second other purchaseLog liveBought)
open Xchandles.Example (bytes32)

/-- The spend of the owner in the block of a registration. -/
def ownerSpend (x : Registration) : SingletonSpend where
  coin := ⟨bytes32 50, x.ownerHash, 1⟩
  launcherId := x.owner
  child := ⟨⟨bytes32 51, x.ownerHash, 1⟩, bytes32 23, false, none⟩

/-- The record of the owner. -/
def found (x : Registration) (height : ℕ) : FollowedSingleton :=
  discoveredRecord parsedDriver none height ⟨x.owner, x.ownerHash, bytes32 23⟩
    (.found (ownerSpend x).child)

/-- The records after a registration for an owner that had none. -/
def register (x : Registration) (height : ℕ) (store : SingletonStore) : SingletonStore :=
  trackSlotReferenceChanges height (store.upsert (found x height)) x.log

def storeFirst : SingletonStore := register first 100 fun _ => none

def storeSecond : SingletonStore := trackSlotReferenceChanges 100 storeFirst second.log

def storeOther : SingletonStore := register other 150 storeFirst

def storeBought : SingletonStore :=
  trackSlotReferenceChanges 200 (storeOther.bumpReference first.owner) purchaseLog

def trackedFirst : Tracked := ⟨100, first.log, fun _ => none⟩

def trackedSecond : Tracked := ⟨100, second.log, storeFirst⟩

def trackedOther : Tracked := ⟨150, other.log, storeFirst⟩

def trackedBought : Tracked := ⟨200, purchaseLog, storeOther⟩

/-! ### What the records say -/

theorem lawful_first : first.log.Lawful :=
  HistoryExample.reported_first.lawful _ (List.mem_singleton_self _)

theorem lawful_second : second.log.Lawful :=
  HistoryExample.reported_second.lawful _ (List.mem_cons_of_mem _ (List.mem_singleton_self _))

theorem lawful_other : other.log.Lawful :=
  HistoryExample.reported_bought.lawful _ (List.mem_cons_of_mem _ (List.mem_cons_self ..))

theorem lawful_bought : purchaseLog.Lawful :=
  HistoryExample.reported_bought.lawful _
    (List.mem_cons_of_mem _ (List.mem_cons_of_mem _ (List.mem_singleton_self _)))

theorem not_rewrites (x : Registration) : ¬ x.log.Rewrites := by
  rintro (h | h) <;> cases h

/-- A record with one slot stays as it is when a slot names its launcher again. -/
theorem found_renamed (x : Registration) (height : ℕ) :
    (found x height).renamed = found x height := by
  refine if_neg ?_
  rintro (hzero | hsome)
  · exact Nat.one_ne_zero hzero
  · cases hsome

/-- A registration leaves the other records as they are, if each has a slot. -/
theorem register_apply {x : Registration} (hx : x.log.Lawful) (height : ℕ) {store : SingletonStore}
    (hstore : ∀ l, ∀ record ∈ store l, record.renamed = record) (launcher : Bytes) :
    register x height store launcher
      = if launcher = x.owner then some (found x height) else store launcher := by
  have hupsert : store.upsert (found x height) launcher
      = if launcher = x.owner then some (found x height) else store launcher :=
    Function.update_apply ..
  have hrenamed : (store.upsert (found x height) launcher).map FollowedSingleton.renamed
      = store.upsert (found x height) launcher := by
    rw [hupsert]
    by_cases hl : launcher = x.owner
    · rw [if_pos hl, Option.map_some, found_renamed]
    · rw [if_neg hl]
      cases hrecord : store launcher with
      | none => rfl
      | some record => rw [Option.map_some, hstore launcher record hrecord]
  unfold register
  rw [trackSlotReferenceChanges_apply hx, if_neg (hx.not_loses (not_rewrites x)), hrenamed, ite_self,
    hupsert]

theorem storeFirst_apply (launcher : Bytes) :
    storeFirst launcher = if launcher = first.owner then some (found first 100) else none :=
  register_apply lawful_first 100 (fun _ _ hrecord => by cases hrecord) launcher

/-- Any record is the owner's. -/
theorem eq_found {launcher : Bytes} {record : FollowedSingleton}
    (h : record ∈ storeFirst launcher) : record = found first 100 := by
  rw [storeFirst_apply, Option.mem_def, Option.ite_none_right_eq_some] at h
  exact (Option.some.inj h.2).symm

theorem storeFirst_owner : storeFirst (bytes32 20) = some (found first 100) :=
  (storeFirst_apply _).trans (if_pos rfl)

theorem storeSecond_owner : storeSecond (bytes32 20) = some (found first 100) := by
  unfold storeSecond
  rw [trackSlotReferenceChanges_apply lawful_second,
    if_neg (lawful_second.not_loses (not_rewrites second)), storeFirst_owner, Option.map_some,
    found_renamed, ite_self]

theorem storeOther_apply (launcher : Bytes) : storeOther launcher
    = if launcher = other.owner then some (found other 150) else storeFirst launcher := by
  refine register_apply lawful_other 150 (fun l record hrecord => ?_) launcher
  rw [eq_found hrecord, found_renamed]

/-! ### The logs are processed -/

/-- A registration for an owner that has no record yet. -/
theorem onActionLog_register {x : Registration} (height : ℕ) {store : SingletonStore}
    (hreferences : referencesFromActionLog x.log = [⟨x.owner, x.ownerHash, bytes32 23⟩])
    (hnone : store x.owner = none) :
    onActionLog parsedDriver height [ownerSpend x] store x.log = (register x height store, none) := by
  have hmatch : parsedDriver.tryMatchSpend (ownerSpend x) x.owner x.ownerHash (bytes32 23)
      = .ok (some (ownerSpend x).child) := congrArg Except.ok (if_pos ⟨rfl, rfl⟩)
  have hdiscover : discoverSingletonInBlock parsedDriver [ownerSpend x]
      ⟨x.owner, x.ownerHash, bytes32 23⟩ = .ok (.found (ownerSpend x).child) := by
    unfold discoverSingletonInBlock
    rw [List.mapM_cons, List.mapM_nil, hmatch]
    rfl
  have hfound : discoverReference parsedDriver height [ownerSpend x] store
      ⟨x.owner, x.ownerHash, bytes32 23⟩ = (store.upsert (found x height), none) := by
    unfold discoverReference
    simp only [hnone, hdiscover]
    rw [if_neg (by simp)]
    rfl
  unfold onActionLog
  rw [hreferences, forEach, hfound]
  rfl

theorem onActionLog_first : onActionLog parsedDriver 100 [ownerSpend first] (fun _ => none) first.log
    = (storeFirst, none) :=
  onActionLog_register 100 rfl rfl

theorem processed_first : Processed parsedDriver [trackedFirst] storeFirst :=
  Processed.start.log onActionLog_first

theorem processed_second : Processed parsedDriver [trackedFirst, trackedSecond] storeSecond :=
  have hsecond : onActionLog parsedDriver 100 [] storeFirst second.log = (storeSecond, none) := rfl
  processed_first.log hsecond

theorem storeFirst_other : storeFirst other.owner = none :=
  (storeFirst_apply _).trans (if_neg (by decide))

theorem storeOther_first : storeOther first.owner = some (found first 100) :=
  ((storeOther_apply _).trans (if_neg (by decide))).trans storeFirst_owner

theorem storeOther_other : storeOther other.owner = some (found other 150) :=
  (storeOther_apply _).trans (if_pos rfl)

theorem processed_bought :
    Processed parsedDriver [trackedFirst, trackedOther, trackedBought] storeBought := by
  have hother : onActionLog parsedDriver 150 [ownerSpend other] storeFirst other.log
      = (storeOther, none) := onActionLog_register 150 rfl storeFirst_other
  have hbumped : discoverReference parsedDriver 200 [] storeOther
      ⟨first.owner, first.ownerHash, bytes32 23⟩ = (storeOther.bumpReference first.owner, none) := by
    have hfollowed : ∃ record, storeOther first.owner = some record ∧ record.Followed :=
      ⟨_, storeOther_first, rfl, rfl⟩
    unfold discoverReference
    exact if_pos hfollowed
  have hbought : onActionLog parsedDriver 200 [] storeOther purchaseLog = (storeBought, none) := by
    have hreferences : referencesFromActionLog purchaseLog
        = [⟨first.owner, first.ownerHash, bytes32 23⟩] := rfl
    unfold onActionLog
    rw [hreferences, forEach, hbumped]
    rfl
  exact (processed_first.log hother).log hbought

/-! ### The logs are counted -/

/-- A registration is counted if its owner has no record yet, and each other record has a slot. -/
theorem counted_register {x : Registration} (hx : x.log.Lawful) (height : ℕ)
    {store : SingletonStore} (hreferenced : x.log.referenced = [x.owner])
    (hnone : store x.owner = none)
    (hstore : ∀ l, ∀ record ∈ store l, 0 < record.referenceCount) :
    Tracked.Counted HistoryExample.low HistoryExample.high ⟨height, x.log, store⟩ where
  countedAt := by
    intro launcher
    refine ⟨fun hl record hrecord => ?_, fun hgains hnot => absurd ?_ hnot,
      fun hloses => absurd hloses (hx.not_loses (not_rewrites x)), fun _ _ => hstore launcher⟩
    · have hrecord : record ∈ store launcher := hrecord
      rw [hreferenced, List.mem_singleton] at hl
      rw [hl, hnone] at hrecord
      cases hrecord
    · rcases hgains with ⟨v, hv, hnames⟩ | ⟨m, hm, hafter, hbefore⟩
      · obtain rfl := List.mem_singleton.1 hv
        have howner : launcher = x.owner := hnames.elim id id
        rw [howner, hreferenced]
        exact List.mem_singleton_self _
      · exact absurd ((hx.names_iff (not_rewrites x) hm launcher).1 hafter) hbefore
  registered := fun hrewrites => absurd hrewrites (not_rewrites x)

theorem counted_first : trackedFirst.Counted HistoryExample.low HistoryExample.high :=
  counted_register lawful_first 100 rfl rfl fun _ _ hrecord => by cases hrecord

theorem counted_other : trackedOther.Counted HistoryExample.low HistoryExample.high := by
  refine counted_register lawful_other 150 rfl storeFirst_other fun l record hrecord => ?_
  rw [eq_found hrecord]
  exact Nat.one_pos

/-- The purchase is counted: its new owner is followed, and the one before has a slot. -/
theorem counted_bought : trackedBought.Counted HistoryExample.low HistoryExample.high where
  countedAt := by
    intro launcher
    have hreferenced : purchaseLog.referenced = [first.owner] := rfl
    have hafter : purchaseLog.Renames launcher → launcher = first.owner := by
      rintro ⟨m, hm, hnames⟩
      obtain rfl := List.mem_singleton.1 hm
      exact hnames.elim id id
    have hgains : purchaseLog.Renames launcher → launcher ∈ purchaseLog.referenced := by
      intro hrenames
      rw [hreferenced, hafter hrenames]
      exact List.mem_singleton_self _
    refine ⟨fun hl record hrecord => Or.inr ?_, fun hg hnot => absurd ?_ hnot, fun hloses => ?_,
      fun hrenames hnot => absurd (ActionLog.gains_of_referenced (hgains hrenames)) hnot⟩
    · have hl : launcher = first.owner := List.mem_singleton.1 (hreferenced ▸ hl)
      have hrecord : storeOther launcher = some record := hrecord
      rw [hl, storeOther_first] at hrecord
      rw [← Option.some.inj hrecord]
      exact ⟨⟨rfl, rfl⟩, by decide⟩
    · rcases hg with ⟨v, hv, -⟩ | ⟨m, hm, hnames, -⟩
      · cases hv
      · exact hgains ⟨m, hm, hnames⟩
    · obtain ⟨m, hm, hnames, -⟩ := hloses
      obtain rfl := List.mem_singleton.1 hm
      have howner : launcher = other.owner := hnames.elim id id
      refine ⟨found other 150, ?_, Nat.one_pos⟩
      rw [howner]
      exact storeOther_other
  registered := by
    intro _ m hm
    obtain rfl := List.mem_singleton.1 hm
    exact ⟨by decide +kernel, by decide +kernel⟩

theorem storeBought_other : (storeBought other.owner).isSome = true := by
  have hloses : purchaseLog.Loses other.owner := by decide
  have hbumped : storeOther.bumpReference first.owner other.owner = storeOther other.owner :=
    Function.update_of_ne (by decide) ..
  unfold storeBought
  rw [trackSlotReferenceChanges_apply lawful_bought, if_pos hloses, hbumped, storeOther_other]
  rfl

theorem counted_all : ∀ t ∈ [trackedFirst, trackedOther, trackedBought],
    t.Counted HistoryExample.low HistoryExample.high := by
  intro t ht
  simp only [List.mem_cons, List.not_mem_nil, or_false] at ht
  rcases ht with rfl | rfl | rfl
  · exact counted_first
  · exact counted_other
  · exact counted_bought

end ReferenceExample

section

variable {M : Machine} {K : Xchandles.Constants} {S : Xchandles.Sentinels}
variable {low high : HandleSlotValue} {r₀ r : Registry} {blocks : List ReportedBlock}
variable {Spend : Type} {D : Driver Spend} {tracked : List Tracked} {store : SingletonStore}

/-- **Reference counts.**  Let the logs of a history be processed one after the other,
each of them one that changes the counts as it changes the slots.  Then at any time the
count of every record is the number of live handle slots that name its launcher, its
height of dereference is there exactly if this is zero, and every launcher that is named
has a record.  A clean-up removes no such record, and it removes those that no slot names
as soon as the last loss of the launcher is 32 blocks ago. -/
theorem references_counted (h0 : Launched M K S low high r₀) (hist : Reported M K r₀ blocks r)
    (hlogs : tracked.map Tracked.log <+: logsOf blocks) (hrun : Processed D tracked store)
    (hcounted : ∀ t ∈ tracked, t.Counted low high) {live : Multiset HandleSlotValue}
    (hlive : LiveAfter {low, high} (tracked.map Tracked.log) live) :
    (∀ launcher, ∀ record ∈ store launcher,
      record.referenceCount = references low high live launcher ∧
        (record.dereferenceHeight.isSome ↔ references low high live launcher = 0)) ∧
    (∀ launcher, references low high live launcher ≠ 0 → (store launcher).isSome) ∧
    (∀ peak launcher, references low high live launcher ≠ 0 →
      cleanupFinalized peak store launcher = store launcher) ∧
    (∀ peak launcher, references low high live launcher = 0 → (store launcher).isSome →
      ∃ d, lastLost tracked launcher = some d ∧
        (cleanupFinalized peak store launcher = none ↔ saturatingAdd d 32 ≤ peak)) ∧
    (tracked.map Tracked.log = logsOf blocks → ∀ items, Xchandles.Behind M.hash K items r →
      Xchandles.handlesOf items = live.map HandleSlotValue.toClvm) := by
  have hmem : ∀ t ∈ tracked, t.log ∈ logsOf blocks :=
    fun t ht => hlogs.subset (List.mem_map_of_mem ht)
  obtain ⟨-, htallies⟩ := hrun.tallies (fun t ht => hist.lawful t.log (hmem t ht))
    (fun t ht => hist.ne_sentinel h0 t.log (hmem t ht)) hcounted
  have hcount : ∀ launcher, Tallies (references low high live launcher : ℤ)
      (lastLost tracked launcher) (store launcher) := by
    intro launcher
    have hgain := Settles.weigh_eq_add_gain hlive (mention low high launcher)
    rw [weigh_mention, weigh_mention, references_sentinels, Nat.cast_zero, zero_add, List.map_map,
      List.map_map] at hgain
    rw [hgain]
    exact htallies launcher
  refine ⟨fun launcher record hrecord => ?_, fun launcher hnamed => ?_, fun peak launcher hnamed =>
    ?_, fun peak launcher hzero hsome => ?_, fun hall items hitems => ?_⟩
  · have heq := (hcount launcher).count_eq record hrecord
    refine ⟨by exact_mod_cast heq, ?_⟩
    rw [(hcount launcher).dereferenceHeight_eq record hrecord]
    by_cases hzero : references low high live launcher = 0
    · rw [if_pos (by exact_mod_cast hzero)]
      refine iff_of_true ((hcount launcher).lost_isSome record hrecord ?_) hzero
      exact_mod_cast hzero
    · rw [if_neg (by exact_mod_cast hzero)]
      exact iff_of_false (by simp) hzero
  · rw [Option.isSome_iff_ne_none]
    intro hnone
    exact hnamed (by exact_mod_cast (hcount launcher).eq_zero hnone)
  · rw [(hcount launcher).cleanupFinalized, if_neg]
    exact fun hfinal => hnamed (by exact_mod_cast hfinal.1)
  · obtain ⟨record, hrecord⟩ := Option.isSome_iff_exists.1 hsome
    have hlost := (hcount launcher).lost_isSome record hrecord (by exact_mod_cast hzero)
    obtain ⟨d, hd⟩ := Option.isSome_iff_exists.1 hlost
    refine ⟨d, hd, ?_⟩
    rw [(hcount launcher).cleanupFinalized, hd, hrecord]
    simp [hzero]
  · obtain ⟨items', live', hitems', hlive', hhandles, -⟩ := hist.exists_live h0
    rw [hall] at hlive
    rw [hitems.unique h0.collisionFree h0.kinds hitems', hlive.unique hlive', hhandles]

end

/-- An owner buys the expired handle of another one.  Two slots name it then, and it is kept;
the other one is named by no slot, and it is removed 32 blocks later. -/
theorem references_counted_purchase :
    (∃ record ∈ ReferenceExample.storeBought HistoryExample.first.owner,
      record.referenceCount = 2 ∧ ∀ peak, cleanupFinalized peak ReferenceExample.storeBought
        HistoryExample.first.owner = some record) ∧
    ∃ record ∈ ReferenceExample.storeBought HistoryExample.other.owner,
      record.referenceCount = 0 ∧ ∀ peak, cleanupFinalized peak ReferenceExample.storeBought
        HistoryExample.other.owner = none ↔ 232 ≤ peak := by
  have hprocessed : [ReferenceExample.trackedFirst, ReferenceExample.trackedOther,
      ReferenceExample.trackedBought].map Tracked.log <+: logsOf [HistoryExample.first.reported,
        HistoryExample.other.reported, HistoryExample.purchaseReported] := List.prefix_refl _
  have htwo : references HistoryExample.low HistoryExample.high HistoryExample.liveBought
      HistoryExample.first.owner = 2 := by decide +kernel
  have hzero : references HistoryExample.low HistoryExample.high HistoryExample.liveBought
      HistoryExample.other.owner = 0 := by decide +kernel
  obtain ⟨hcount, hrecord, hkept, hremoved, -⟩ := references_counted HistoryExample.launched
    HistoryExample.reported_bought hprocessed ReferenceExample.processed_bought
    ReferenceExample.counted_all HistoryExample.liveAfter_bought
  have hnamed : references HistoryExample.low HistoryExample.high HistoryExample.liveBought
      HistoryExample.first.owner ≠ 0 := by
    rw [htwo]
    decide
  obtain ⟨owner, howner⟩ := Option.isSome_iff_exists.1 (hrecord _ hnamed)
  obtain ⟨former, hformer⟩ := Option.isSome_iff_exists.1 ReferenceExample.storeBought_other
  refine ⟨⟨owner, howner, (hcount _ owner howner).1.trans htwo, fun peak => ?_⟩,
    former, hformer, (hcount _ former hformer).1.trans hzero, fun peak => ?_⟩
  · exact (hkept peak _ hnamed).trans howner
  · obtain ⟨d, hd, hiff⟩ := hremoved peak _ hzero ReferenceExample.storeBought_other
    have hlost : lastLost [ReferenceExample.trackedFirst, ReferenceExample.trackedOther,
        ReferenceExample.trackedBought] HistoryExample.other.owner = some 200 := by decide +kernel
    obtain rfl := Option.some.inj (hd.symm.trans hlost)
    exact hiff

/-- **A miscount.**  A handle is registered next to one that has the same owner.  Two live
slots name the owner now, and its record counts one. -/
theorem references_miscounted :
    Launched HistoryExample.machine Xchandles.Example.constants Xchandles.Example.sentinels
      HistoryExample.low HistoryExample.high (HistoryExample.first.before 0) ∧
    Reported HistoryExample.machine Xchandles.Example.constants (HistoryExample.first.before 0)
      [HistoryExample.first.reported, HistoryExample.second.reported]
      (HistoryExample.second.after {HistoryExample.coin HistoryExample.first.newLeft}) ∧
    Processed parsedDriver [ReferenceExample.trackedFirst, ReferenceExample.trackedSecond]
      ReferenceExample.storeSecond ∧
    [ReferenceExample.trackedFirst, ReferenceExample.trackedSecond].map Tracked.log
      = logsOf [HistoryExample.first.reported, HistoryExample.second.reported] ∧
    LiveAfter {HistoryExample.low, HistoryExample.high}
      (logsOf [HistoryExample.first.reported, HistoryExample.second.reported])
      HistoryExample.liveSecond ∧
    references HistoryExample.low HistoryExample.high HistoryExample.liveSecond
      (Xchandles.Example.bytes32 20) = 2 ∧
    ∃ record ∈ ReferenceExample.storeSecond (Xchandles.Example.bytes32 20),
      record.referenceCount = 1 := by
  refine ⟨HistoryExample.launched, HistoryExample.reported_second,
    ReferenceExample.processed_second, rfl, HistoryExample.liveAfter_second, by decide +kernel, ?_⟩
  exact ⟨_, ReferenceExample.storeSecond_owner, rfl⟩

end SlotMachine.Listener
