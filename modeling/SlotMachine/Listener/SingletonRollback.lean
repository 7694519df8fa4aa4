import SlotMachine.Listener.Mutation

/-!
# Rollback of the followed singletons

A rollback should leave what the calls below the fork have left.  It restores the
current states, and undoes a drop of the last reference; nothing else has a record of
what it changed.

* `Mutation.Undone` — when a rollback undoes a change.
* `Sound`, `Sound.step` — what holds of a record below the fork.
* `Replays`, `StoreReplays.step` — and above it, as long as changes are undone.
* `rollback_replays` — **then a rollback is a replay**.
-/

namespace SlotMachine.Listener

open Retention

/-! ## Changes that a rollback undoes -/

section

variable {Spend : Type} (D : Driver Spend)

/-- A rollback takes a new reference back: it is the first one since the last was dropped
above the fork, or the count cannot grow. -/
def FollowedSingleton.BumpUndone (fromHeight : ℕ) (record : FollowedSingleton) : Prop :=
  (record.referenceCount = 0 ∧ ∃ d ∈ record.dereferenceHeight, fromHeight ≤ d) ∨
    (record.referenceCount = u32Max ∧ record.dereferenceHeight = none)

/-- A rollback takes a lost reference back: it was the only one. -/
def FollowedSingleton.DropUndone (fromHeight : ℕ) (record : FollowedSingleton) : Prop :=
  (record.referenceCount = 1 ∧ record.dereferenceHeight = none) ∨
    (record.referenceCount ≤ 1 ∧ ∃ d ∈ record.dereferenceHeight, fromHeight ≤ d)

/-- **A rollback undoes the change** of a record that is older than the fork. -/
def Mutation.Undone (height : ℕ) (spends : List Spend) (fromHeight : ℕ) (store : SingletonStore) :
    Mutation → Prop
  | .discover reference => ∀ record ∈ store reference.launcherId,
      record.discoveryHeight < fromHeight → record.Followed ∧ record.BumpUndone fromHeight
  | .drop l => ∀ record ∈ store l, record.discoveryHeight < fromHeight →
      record.DropUndone fromHeight
  | .rename l => ∀ record ∈ store l, record.discoveryHeight < fromHeight →
      record.referenceCount = 0 ∨ record.dereferenceHeight.isSome → record.BumpUndone fromHeight
  | .visit l => ∀ record ∈ store l, record.discoveryHeight < fromHeight →
      record.status = .incomplete → ∀ result, discoverSingletonInBlock D spends
        ⟨record.launcherId, record.expectedFullPuzzleHash, record.expectedInnerPuzzleHash⟩
          = .ok result → result = .incomplete
  | .cleanup => ∀ l, ∀ record ∈ store l, record.discoveryHeight < fromHeight →
      ¬ record.Finalized height

/-- All changes that take place are undone. -/
def AllUndone (height : ℕ) (spends : List Spend) (fromHeight : ℕ) :
    SingletonStore → List Mutation → Prop
  | _, [] => True
  | store, m :: ms => m.Undone D height spends fromHeight store ∧
      ∀ store', m.run D height spends store = (store', none) →
        AllUndone height spends fromHeight store' ms

/-- All changes of a call are undone. -/
def Call.Undone (fromHeight : ℕ) (store : SingletonStore) (call : Call Spend) : Prop :=
  AllUndone D call.height call.spends fromHeight store call.mutations

end

/-! ## Below the fork -/

/-- A record of calls up to the height `top`. -/
structure Sound (top : ℕ) (launcher : Bytes) (record : FollowedSingleton) : Prop where
  launcherId_eq : record.launcherId = launcher
  discoveryHeight_le : record.discoveryHeight ≤ top
  dereferenceHeight_le : ∀ d ∈ record.dereferenceHeight, d ≤ top
  ordered : Ordered StoredSingletonState.confirmationHeight record.versions
  versions_le : ∀ s ∈ record.versions, s.confirmationHeight ≤ top
  history_eq : record.current = none → record.history = []
  inactive : record.status ≠ .active → record.current = none

section

variable {Spend : Type} {D : Driver Spend} {height : ℕ} {spends : List Spend}
variable {top : ℕ} {launcher : Bytes} {record : FollowedSingleton}

theorem Sound.mono (h : Sound top launcher record) (hle : top ≤ height) :
    Sound height launcher record where
  launcherId_eq := h.launcherId_eq
  discoveryHeight_le := h.discoveryHeight_le.trans hle
  dereferenceHeight_le := fun d hd => (h.dereferenceHeight_le d hd).trans hle
  ordered := h.ordered
  versions_le := fun s hs => (h.versions_le s hs).trans hle
  history_eq := h.history_eq
  inactive := h.inactive

theorem Sound.bumped (h : Sound top launcher record) : Sound top launcher record.bumped :=
  { h with dereferenceHeight_le := nofun }

theorem Sound.renamed (h : Sound top launcher record) : Sound top launcher record.renamed := by
  unfold FollowedSingleton.renamed
  split
  · exact h.bumped
  · exact h

theorem Sound.dropped (h : Sound top launcher record) (hle : top ≤ height) :
    Sound height launcher (record.dropped height) where
  launcherId_eq := h.launcherId_eq
  discoveryHeight_le := h.discoveryHeight_le.trans hle
  dereferenceHeight_le := by
    intro d hd
    have hcases : d = height ∨ d ∈ record.dereferenceHeight := by
      change d ∈ (if record.referenceCount - 1 = 0 then some height else record.dereferenceHeight)
        at hd
      split at hd
      · exact Or.inl (Option.some.inj hd).symm
      · exact Or.inr hd
    rcases hcases with rfl | hd
    · exact le_rfl
    · exact (h.dereferenceHeight_le d hd).trans hle
  ordered := h.ordered
  versions_le := fun s hs => (h.versions_le s hs).trans hle
  history_eq := h.history_eq
  inactive := h.inactive

/-- A record that is not followed has had no state. -/
theorem Sound.history_nil (h : Sound top launcher record) (hnot : ¬ record.Followed) :
    record.history = [] := by
  refine h.history_eq ?_
  by_cases hactive : record.status = .active
  · by_contra hcurrent
    exact hnot ⟨hactive, Option.isSome_iff_ne_none.2 hcurrent⟩
  · exact h.inactive hactive

/-- A record with one state. -/
theorem versions_of_history_nil {r : Retained StoredSingletonState} (h : r.history = []) :
    r.versions = r.current.toList := by
  unfold Retained.versions
  rw [h, List.nil_append]

theorem Sound.discovered {o : Option FollowedSingleton} (h : ∀ record ∈ o, Sound top launcher record)
    (hnot : ¬ ∃ record, o = some record ∧ record.Followed) {reference : SingletonReference}
    (result : DiscoveryResult) (hid : launcher = reference.launcherId) :
    Sound height launcher (discoveredRecord D o height reference result) := by
  have hhistory : (discoveredRecord D o height reference result).history = [] := by
    unfold discoveredRecord
    cases o with
    | none => rfl
    | some record => exact (h record rfl).history_nil fun hrecord => hnot ⟨record, rfl, hrecord⟩
  have hversions := versions_of_history_nil hhistory
  refine ⟨hid.symm, le_rfl, nofun, ?_, ?_, fun _ => hhistory, ?_⟩
  · rw [hversions]
    unfold Ordered
    cases (discoveredRecord D o height reference result).current <;> simp
  · rw [hversions]
    intro s hs
    cases result with
    | found singleton =>
        have hs' := Option.some.inj (Option.mem_toList.1 hs)
        rw [← hs']
        exact le_rfl
    | incomplete => cases hs
    | mismatch => cases hs
  · cases result with
    | found singleton => exact fun h => absurd rfl h
    | incomplete => exact fun _ => rfl
    | mismatch => exact fun _ => rfl

theorem Sound.pushed (h : Sound top launcher record) (hle : top ≤ height)
    (hactive : record.status = .active) {s : StoredSingletonState}
    (hs : s.confirmationHeight = height) :
    Sound height launcher (pushReplacement record s height) := by
  have hkeeps := (keeps_versions (w := retentionWindow) h.ordered top).push (s := s)
    fun t ht => (h.versions_le t ht).trans (hle.trans hs.ge)
  rw [hs] at hkeeps
  refine ⟨h.launcherId_eq, h.discoveryHeight_le.trans hle,
    fun d hd => (h.dereferenceHeight_le d hd).trans hle, hkeeps.ordered, fun t ht => ?_, nofun,
    fun hnot => absurd hactive hnot⟩
  rcases List.mem_append.1 (hkeeps.mem_pushed t ht) with ht | ht
  · exact (h.versions_le t ht).trans hle
  · rw [List.mem_singleton.1 ht, hs]

theorem Sound.stepped (h : Sound top launcher record) (hle : top ≤ height)
    {record' : FollowedSingleton} (hstep : stepRecord D height spends launcher record = .ok record') :
    Sound height launcher record' := by
  rcases stepRecord_cases D hstep with rfl | ⟨hstatus, -, -, -, ⟨s, hs, rfl⟩ | rfl⟩ |
    ⟨s, hs, hactive, rfl⟩
  · exact h.mono hle
  · -- a record that was looked for again has had no state
    have hhistory := h.history_eq (h.inactive (by rw [hstatus]; nofun))
    have hversions := versions_of_history_nil (r := ⟨some s, record.history⟩) hhistory
    refine ⟨h.launcherId_eq, h.discoveryHeight_le.trans hle,
      fun d hd => (h.dereferenceHeight_le d hd).trans hle, ?_, fun t ht => ?_, nofun,
      fun hnot => absurd rfl hnot⟩
    · rw [hversions]
      exact List.pairwise_singleton ..
    · rw [hversions] at ht
      rw [List.mem_singleton.1 ht, hs]
  · have hsound := h.mono hle
    exact ⟨hsound.launcherId_eq, hsound.discoveryHeight_le, hsound.dereferenceHeight_le,
      hsound.ordered, hsound.versions_le, hsound.history_eq,
      fun _ => h.inactive (by rw [hstatus]; nofun)⟩
  · exact h.pushed hle hactive hs

theorem Sound.visited (h : Sound top launcher record) (hle : top ≤ height) :
    Sound height launcher (visitRecord D height spends launcher record) := by
  unfold visitRecord
  cases hstep : stepRecord D height spends launcher record with
  | error e => exact h.mono hle
  | ok record' => exact h.stepped hle hstep

/-- **A change leaves sound records.** -/
theorem Sound.step {store : SingletonStore} (hle : top ≤ height)
    (h : ∀ launcher, ∀ record ∈ store launcher, Sound top launcher record) (m : Mutation) :
    ∀ launcher, ∀ record ∈ (m.run D height spends store).1 launcher,
      Sound height launcher record := by
  intro launcher record hrecord
  rw [m.run_apply D fun l r hr => (h l r hr).launcherId_eq] at hrecord
  by_cases hhits : m.Hits launcher
  · rw [if_pos hhits] at hrecord
    cases m with
    | drop l =>
        obtain ⟨before, hbefore, rfl⟩ := Option.map_eq_some_iff.1 hrecord
        exact (h launcher before hbefore).dropped hle
    | rename l =>
        obtain ⟨before, hbefore, rfl⟩ := Option.map_eq_some_iff.1 hrecord
        exact ((h launcher before hbefore).mono hle).renamed
    | cleanup =>
        exact (h launcher record (Option.mem_filter_iff.1 hrecord).1).mono hle
    | visit l =>
        obtain ⟨before, hbefore, rfl⟩ := Option.map_eq_some_iff.1 hrecord
        exact (h launcher before hbefore).visited hle
    | discover reference =>
        change record ∈ (if _ then _ else _) at hrecord
        split at hrecord
        · obtain ⟨before, hbefore, rfl⟩ := Option.map_eq_some_iff.1 hrecord
          exact ((h launcher before hbefore).mono hle).bumped
        · next hnot =>
            cases hresult : discoverSingletonInBlock D spends reference with
            | error e =>
                rw [hresult] at hrecord
                exact (h launcher record hrecord).mono hle
            | ok result =>
                rw [hresult] at hrecord
                rw [← Option.some.inj hrecord]
                exact Sound.discovered (h launcher) hnot result hhits
  · rw [if_neg hhits] at hrecord
    exact (h launcher record hrecord).mono hle

end

/-! ## Above the fork -/

/-- What a rollback leaves of the count and of the height of dereference. -/
def FollowedSingleton.rolledTally (fromHeight : ℕ) (record : FollowedSingleton) : ℕ × Option ℕ :=
  if ∃ d ∈ record.dereferenceHeight, fromHeight ≤ d then
    (if record.referenceCount = 0 then 1 else record.referenceCount, none)
  else (record.referenceCount, record.dereferenceHeight)

/-- A record above the fork that a rollback turns into the one below it. -/
structure Replays (fromHeight top : ℕ) (base record : FollowedSingleton) : Prop where
  launcherId_eq : record.launcherId = base.launcherId
  discoveryHeight_eq : record.discoveryHeight = base.discoveryHeight
  status_eq : record.status = base.status
  rolledTally_eq : record.rolledTally fromHeight = (base.referenceCount, base.dereferenceHeight)
  keeps : ∃ later : List StoredSingletonState,
    Keeps StoredSingletonState.confirmationHeight retentionWindow top (base.versions ++ later)
      record.toRetained ∧
    (∀ s ∈ base.versions ++ later, s.confirmationHeight ≤ top) ∧
    ∀ s ∈ later, fromHeight ≤ s.confirmationHeight

section

variable {Spend : Type} {D : Driver Spend} {height : ℕ} {spends : List Spend}
variable {fromHeight top : ℕ} {launcher : Bytes} {base record : FollowedSingleton}

theorem rolledTally_of_le {d : ℕ} (h : record.dereferenceHeight = some d) (hd : fromHeight ≤ d) :
    record.rolledTally fromHeight
      = (if record.referenceCount = 0 then 1 else record.referenceCount, none) := by
  unfold FollowedSingleton.rolledTally
  rw [if_pos ⟨d, h, hd⟩]

theorem rolledTally_of_none (h : record.dereferenceHeight = none) :
    record.rolledTally fromHeight = (record.referenceCount, none) := by
  unfold FollowedSingleton.rolledTally
  rw [h]
  simp

theorem rolledTally_bumped (h : record.BumpUndone fromHeight) :
    record.bumped.rolledTally fromHeight = record.rolledTally fromHeight := by
  have hbumped : record.bumped.dereferenceHeight = none := rfl
  rw [rolledTally_of_none hbumped]
  rcases h with ⟨hcount, d, hd, hle⟩ | ⟨hcount, hnone⟩
  · rw [rolledTally_of_le hd hle, if_pos hcount]
    show (saturatingAdd record.referenceCount 1, none) = _
    rw [hcount]
    rfl
  · rw [rolledTally_of_none hnone]
    show (saturatingAdd record.referenceCount 1, none) = _
    rw [hcount]
    rfl

theorem rolledTally_dropped (h : record.DropUndone fromHeight) (hheight : fromHeight ≤ height) :
    (record.dropped height).rolledTally fromHeight = record.rolledTally fromHeight := by
  have hle : record.referenceCount ≤ 1 := by
    rcases h with ⟨h, -⟩ | ⟨h, -⟩
    · omega
    · exact h
  have hzero : record.referenceCount - 1 = 0 := by omega
  have hdropped : (record.dropped height).rolledTally fromHeight = (1, none) := by
    rw [rolledTally_of_le (d := height) (if_pos hzero) hheight]
    exact congrArg (·, none) (if_pos hzero)
  rw [hdropped]
  rcases h with ⟨hcount, hnone⟩ | ⟨hcount, d, hd, hdle⟩
  · rw [rolledTally_of_none hnone, hcount]
  · rw [rolledTally_of_le hd hdle]
    split
    · rfl
    · have hone : record.referenceCount = 1 := by omega
      rw [hone]

theorem Replays.mono (h : Replays fromHeight top base record) (hle : top ≤ height) :
    Replays fromHeight height base record := by
  obtain ⟨later, hkeeps, htop, hlater⟩ := h.keeps
  exact { h with keeps := ⟨later, hkeeps.mono hle, fun s hs => (htop s hs).trans hle, hlater⟩ }

/-- The record below the fork, when the rest has just begun. -/
theorem Sound.replays (h : Sound top launcher record) (hlt : top < fromHeight) :
    Replays fromHeight top record record where
  launcherId_eq := rfl
  discoveryHeight_eq := rfl
  status_eq := rfl
  rolledTally_eq := by
    unfold FollowedSingleton.rolledTally
    rw [if_neg]
    rintro ⟨d, hd, hle⟩
    have hd' := h.dereferenceHeight_le d hd
    omega
  keeps := by
    refine ⟨[], ?_, ?_, nofun⟩
    · rw [List.append_nil]
      exact keeps_versions h.ordered top
    · rw [List.append_nil]
      exact h.versions_le

theorem Replays.bumped (h : Replays fromHeight top base record)
    (hundone : record.BumpUndone fromHeight) : Replays fromHeight top base record.bumped :=
  { h with rolledTally_eq := (rolledTally_bumped hundone).trans h.rolledTally_eq }

theorem Replays.dropped (h : Replays fromHeight top base record)
    (hundone : record.DropUndone fromHeight) (hheight : fromHeight ≤ height) :
    Replays fromHeight top base (record.dropped height) :=
  { h with rolledTally_eq := (rolledTally_dropped hundone hheight).trans h.rolledTally_eq }

theorem Replays.renamed (h : Replays fromHeight top base record)
    (hundone : record.referenceCount = 0 ∨ record.dereferenceHeight.isSome →
      record.BumpUndone fromHeight) : Replays fromHeight top base record.renamed := by
  unfold FollowedSingleton.renamed
  split
  · next hrecord => exact h.bumped (hundone hrecord)
  · exact h

/-- A new state above the fork. -/
theorem Replays.pushed (h : Replays fromHeight top base record) (hle : top ≤ height)
    (hheight : fromHeight ≤ height) {s : StoredSingletonState} (hs : s.confirmationHeight = height) :
    Replays fromHeight height base (pushReplacement record s height) := by
  obtain ⟨later, hkeeps, htop, hlater⟩ := h.keeps
  have hpush := hkeeps.push (s := s) fun t ht => (htop t ht).trans (hle.trans hs.ge)
  rw [hs, max_eq_right hle, List.append_assoc] at hpush
  refine { h with keeps := ⟨later ++ [s], hpush, fun t ht => ?_, fun t ht => ?_⟩ }
  · rw [← List.append_assoc] at ht
    rcases List.mem_append.1 ht with ht | ht
    · exact (htop t ht).trans hle
    · rw [List.mem_singleton.1 ht, hs]
  · rcases List.mem_append.1 ht with ht | ht
    · exact hlater t ht
    · rw [List.mem_singleton.1 ht, hs]
      exact hheight

/-- **What is left after a rollback within the window.** -/
theorem Replays.rollback (h : Replays fromHeight top base record) {low : ℕ}
    (hbase : Sound low launcher base) (hlow : low < fromHeight)
    (htop : top ≤ fromHeight + retentionWindow) :
    ∃ record', rollbackRecord fromHeight record = some record' ∧ record'.status = base.status ∧
      record'.current = base.current ∧ record'.referenceCount = base.referenceCount ∧
      record'.dereferenceHeight = base.dereferenceHeight := by
  have hcurrent : (rollbackToBefore record fromHeight).current = base.current := by
    obtain ⟨later, hkeeps, -, hlater⟩ := h.keeps
    show (record.toRetained.rollback _ fromHeight).current = _
    rw [hkeeps.current_rollback htop, below_append, below_eq_self fun s hs =>
      (hbase.versions_le s hs).trans_lt hlow]
    have hnone : below StoredSingletonState.confirmationHeight fromHeight later = [] := by
      unfold below
      rw [List.filter_eq_nil_iff]
      intro s hs
      have hle := hlater s hs
      simp
      omega
    rw [hnone, List.append_nil]
    unfold Retained.versions
    cases hc : base.current with
    | some s => exact List.getLast?_concat ..
    | none =>
        rw [hbase.history_eq hc]
        rfl
  have hold : ¬ fromHeight ≤ record.discoveryHeight := by
    rw [h.discoveryHeight_eq]
    have hle := hbase.discoveryHeight_le
    omega
  have htally := h.rolledTally_eq
  unfold FollowedSingleton.rolledTally at htally
  unfold rollbackRecord
  rw [if_neg hold]
  by_cases hdrop : ∃ d ∈ record.dereferenceHeight, fromHeight ≤ d
  · rw [if_pos hdrop] at htally ⊢
    exact ⟨_, rfl, h.status_eq, hcurrent, (Prod.mk.inj htally).1, (Prod.mk.inj htally).2⟩
  · rw [if_neg hdrop] at htally ⊢
    exact ⟨_, rfl, h.status_eq, hcurrent, (Prod.mk.inj htally).1, (Prod.mk.inj htally).2⟩

/-- A block does not change when a record was discovered. -/
theorem stepRecord_discoveryHeight {record' : FollowedSingleton}
    (h : stepRecord D height spends launcher record = .ok record') :
    record'.discoveryHeight = record.discoveryHeight := by
  rcases stepRecord_cases D h with rfl | ⟨-, -, -, -, ⟨s, -, rfl⟩ | rfl⟩ | ⟨s, -, -, rfl⟩
  · rfl
  · rfl
  · rfl
  · rfl

/-- A record that is not found below the fork was discovered above it. -/
structure Late (fromHeight : ℕ) (launcher : Bytes) (record : FollowedSingleton) : Prop where
  launcherId_eq : record.launcherId = launcher
  le_discoveryHeight : fromHeight ≤ record.discoveryHeight

/-- The records of calls below the fork. -/
def Early (fromHeight : ℕ) (base : SingletonStore) : Prop :=
  ∀ launcher, ∀ record ∈ base launcher, ∃ low, low < fromHeight ∧ Sound low launcher record

theorem Early.keyed {base : SingletonStore} (h : Early fromHeight base) : base.Keyed := by
  intro l r hr
  obtain ⟨low, -, hsound⟩ := h l r hr
  exact hsound.launcherId_eq

/-- Every record above the fork replays the one below, or is late. -/
structure StoreReplays (fromHeight top : ℕ) (base store : SingletonStore) : Prop where
  old : ∀ launcher, ∀ b ∈ base launcher, ∃ r ∈ store launcher, Replays fromHeight top b r
  new : ∀ launcher, base launcher = none → ∀ r ∈ store launcher, Late fromHeight launcher r

theorem StoreReplays.keyed {base store : SingletonStore} (h : StoreReplays fromHeight top base store)
    (hbase : base.Keyed) : store.Keyed := by
  intro l r hr
  cases hl : base l with
  | none => exact (h.new l hl r hr).launcherId_eq
  | some b =>
      obtain ⟨r', hr', hreplays⟩ := h.old l b hl
      obtain rfl := Option.mem_unique hr hr'
      exact hreplays.launcherId_eq.trans (hbase l b hl)

/-- A change of an old record that is undone. -/
theorem Replays.step {store : SingletonStore} (hbase : base.launcherId = launcher)
    (hearly : base.discoveryHeight < fromHeight) (hrecord : store launcher = some record)
    (h : Replays fromHeight top base record) (hle : top ≤ height) (hheight : fromHeight ≤ height)
    {m : Mutation} (hundone : m.Undone D height spends fromHeight store) (hhits : m.Hits launcher) :
    ∃ r ∈ m.effect D height spends launcher (store launcher), Replays fromHeight height base r := by
  have hdiscovery : record.discoveryHeight < fromHeight := by
    rw [h.discoveryHeight_eq]
    exact hearly
  rw [hrecord]
  cases m with
  | drop l =>
      obtain rfl : launcher = l := hhits
      exact ⟨_, rfl, (h.mono hle).dropped (hundone record hrecord hdiscovery) hheight⟩
  | rename l =>
      obtain rfl : launcher = l := hhits
      exact ⟨_, rfl, (h.mono hle).renamed (hundone record hrecord hdiscovery)⟩
  | cleanup =>
      have hkept : record ∈ (some record).filter fun r => decide ¬r.Finalized height :=
        Option.mem_filter_iff.2
          ⟨rfl, decide_eq_true (hundone launcher record hrecord hdiscovery)⟩
      exact ⟨record, hkept, h.mono hle⟩
  | visit l =>
      obtain rfl : launcher = l := hhits
      refine ⟨visitRecord D height spends launcher record, rfl, ?_⟩
      unfold visitRecord
      cases hstep : stepRecord D height spends launcher record with
      | error e => exact h.mono hle
      | ok record' =>
          rcases stepRecord_cases D hstep with heq | ⟨hstatus, result, hresult, hne, -⟩ |
            ⟨s, hs, -, heq⟩
          · rw [heq]
            exact h.mono hle
          · exact absurd (hundone record hrecord hdiscovery hstatus result hresult) hne
          · rw [heq]
            exact h.pushed hle hheight hs
  | discover reference =>
      obtain rfl : launcher = reference.launcherId := hhits
      obtain ⟨hfollowed, hbump⟩ := hundone record hrecord hdiscovery
      refine ⟨record.bumped, ?_, (h.mono hle).bumped hbump⟩
      show record.bumped ∈ (if _ then _ else _)
      rw [if_pos ⟨record, rfl, hfollowed⟩]
      rfl

/-- A change of a late record. -/
theorem Late.step {o : Option FollowedSingleton} (h : ∀ r ∈ o, Late fromHeight launcher r)
    (hheight : fromHeight ≤ height) {m : Mutation} (hhits : m.Hits launcher) :
    ∀ r ∈ m.effect D height spends launcher o, Late fromHeight launcher r := by
  intro r hr
  cases m with
  | drop l =>
      obtain ⟨before, hbefore, rfl⟩ := Option.map_eq_some_iff.1 hr
      exact ⟨(h before hbefore).1, (h before hbefore).2⟩
  | rename l =>
      obtain ⟨before, hbefore, rfl⟩ := Option.map_eq_some_iff.1 hr
      unfold FollowedSingleton.renamed
      split
      · exact ⟨(h before hbefore).1, (h before hbefore).2⟩
      · exact h before hbefore
  | cleanup => exact h r (Option.mem_filter_iff.1 hr).1
  | visit l =>
      obtain ⟨before, hbefore, rfl⟩ := Option.map_eq_some_iff.1 hr
      unfold visitRecord
      cases hstep : stepRecord D height spends launcher before with
      | error e => exact h before hbefore
      | ok record' =>
          refine ⟨(congrArg Prod.fst (stepRecord_tally hstep)).trans (h before hbefore).1, ?_⟩
          rw [stepRecord_discoveryHeight hstep]
          exact (h before hbefore).2
  | discover reference =>
      change r ∈ (if _ then _ else _) at hr
      split at hr
      · obtain ⟨before, hbefore, rfl⟩ := Option.map_eq_some_iff.1 hr
        exact ⟨(h before hbefore).1, (h before hbefore).2⟩
      · cases hresult : discoverSingletonInBlock D spends reference with
        | error e =>
            rw [hresult] at hr
            exact h r hr
        | ok result =>
            rw [hresult] at hr
            rw [← Option.some.inj hr]
            exact ⟨(show launcher = reference.launcherId from hhits).symm, hheight⟩

/-- **A change that is undone keeps what a rollback leaves.** -/
theorem StoreReplays.step {base store : SingletonStore} (hbase : Early fromHeight base)
    (h : StoreReplays fromHeight top base store) (hle : top ≤ height)
    (hheight : fromHeight ≤ height) {m : Mutation}
    (hundone : m.Undone D height spends fromHeight store) :
    StoreReplays fromHeight height base (m.run D height spends store).1 := by
  have hkeyed := h.keyed hbase.keyed
  constructor
  · intro l b hb
    rw [m.run_apply D hkeyed]
    obtain ⟨r, hr, hreplays⟩ := h.old l b hb
    obtain ⟨low, hlow, hsound⟩ := hbase l b hb
    by_cases hhits : m.Hits l
    · rw [if_pos hhits]
      exact Replays.step hsound.launcherId_eq (hsound.discoveryHeight_le.trans_lt hlow) hr hreplays
        hle hheight hundone hhits
    · rw [if_neg hhits]
      exact ⟨r, hr, hreplays.mono hle⟩
  · intro l hl
    rw [m.run_apply D hkeyed]
    by_cases hhits : m.Hits l
    · rw [if_pos hhits]
      exact Late.step (h.new l hl) hheight hhits
    · rw [if_neg hhits]
      exact h.new l hl

end

/-! ## Calls -/

section

variable {Spend : Type} {D : Driver Spend} {height : ℕ} {spends : List Spend}
variable {fromHeight top : ℕ} {base store : SingletonStore}

theorem Sound.forEach (hle : top ≤ height)
    (h : ∀ launcher, ∀ record ∈ store launcher, Sound top launcher record) (ms : List Mutation) :
    ∀ launcher, ∀ record ∈ (Listener.forEach (Mutation.run D height spends) store ms).1 launcher,
      Sound height launcher record := by
  induction ms generalizing store top with
  | nil => exact fun l r hr => (h l r hr).mono hle
  | cons m ms ih =>
      have hstep : ∀ launcher, ∀ record ∈ (m.run D height spends store).1 launcher,
          Sound height launcher record := Sound.step hle h m
      unfold Listener.forEach
      cases hrun : m.run D height spends store with
      | mk store' error =>
          rw [hrun] at hstep
          cases error with
          | some e => exact hstep
          | none => exact ih le_rfl hstep

theorem StoreReplays.mono (h : StoreReplays fromHeight top base store) (hle : top ≤ height) :
    StoreReplays fromHeight height base store := by
  refine ⟨fun l b hb => ?_, h.new⟩
  obtain ⟨r, hr, hreplays⟩ := h.old l b hb
  exact ⟨r, hr, hreplays.mono hle⟩

theorem StoreReplays.forEach (hbase : Early fromHeight base)
    (h : StoreReplays fromHeight top base store) (hle : top ≤ height)
    (hheight : fromHeight ≤ height) {ms : List Mutation}
    (hundone : AllUndone D height spends fromHeight store ms) :
    StoreReplays fromHeight height base
      (Listener.forEach (Mutation.run D height spends) store ms).1 := by
  induction ms generalizing store top with
  | nil => exact h.mono hle
  | cons m ms ih =>
      have hstep := h.step hbase hle hheight hundone.1
      unfold Listener.forEach
      cases hrun : m.run D height spends store with
      | mk store' error =>
          rw [hrun] at hstep
          cases error with
          | some e => exact hstep
          | none => exact ih hstep le_rfl (hundone.2 store' hrun)

end

/-- The records after some calls. -/
def runCalls {Spend : Type} (D : Driver Spend) (store : SingletonStore) (calls : List (Call Spend)) :
    SingletonStore :=
  calls.foldl (Call.run D) store

/-- What a record says of its singleton and of its references. -/
def FollowedSingleton.view (record : FollowedSingleton) :
    FollowRecordStatus × Option StoredSingletonState × ℕ × Option ℕ :=
  (record.status, record.current, record.referenceCount, record.dereferenceHeight)

namespace ReplayExample

open HistoryExample (first)
open ReferenceExample (ownerSpend storeFirst)
open Xchandles.Example (bytes32)

/-- The call that finds the owner of the first handle. -/
def found : Call SingletonSpend := .transition 100 [ownerSpend first] [first.log]

/-- The owner is spent. -/
def spent : Call SingletonSpend := .block 110 [⟨⟨bytes32 51, first.ownerHash, 1⟩, bytes32 20,
  ⟨⟨bytes32 52, first.ownerHash, 1⟩, bytes32 23, false, none⟩⟩] [bytes32 20]

/-- Another handle is given to the owner. -/
def update : ActionLog := .executeUpdate
  { spentHandleSlot := ⟨3, bytes32 99, bytes32 0, bytes32 255, 1000, bytes32 40, bytes32 40⟩
    spentUpdateSlot := ⟨bytes32 60, 100, bytes32 99, bytes32 20, bytes32 20⟩
    createdSlot := ⟨4, bytes32 99, bytes32 0, bytes32 255, 1000, bytes32 20, bytes32 20⟩
    puzzles := ⟨first.ownerHash, none, bytes32 23, bytes32 23⟩ }

def given : Call SingletonSpend := .transition 110 [] [update]

theorem runCalls_found : runCalls parsedDriver (fun _ => none) [found] = storeFirst := by
  show (forEach (onActionLog parsedDriver 100 [ownerSpend first]) (fun _ => none) [first.log]).1 = _
  rw [forEach, ReferenceExample.onActionLog_first]
  rfl

theorem storeFirst_count {l : Bytes} {record : FollowedSingleton} (h : record ∈ storeFirst l) :
    record.referenceCount ≠ 0 := by
  rw [ReferenceExample.eq_found h]
  exact Nat.one_ne_zero

/-- A rollback undoes the spend. -/
theorem spent_undone : spent.Undone parsedDriver 105
    (runCalls parsedDriver (fun _ => none) [found]) := by
  rw [runCalls_found]
  have hempty : SingletonStore.Keyed fun _ => none := by
    intro l record hrecord
    cases hrecord
  have hkeyed : storeFirst.Keyed := keyed_onActionLog ReferenceExample.lawful_first hempty
    ReferenceExample.onActionLog_first
  refine ⟨fun record hrecord _ hstatus => ?_, fun store' hrun => ⟨fun l record hrecord _ hfinal => ?_,
    fun _ _ => trivial⟩⟩
  · rw [ReferenceExample.storeFirst_owner] at hrecord
    rw [← Option.some.inj hrecord] at hstatus
    cases hstatus
  · have htally : ((stepLauncher parsedDriver 110 spent.spends storeFirst (bytes32 20)).1 l).map
        FollowedSingleton.tally = (storeFirst l).map FollowedSingleton.tally :=
      stepLauncher_tally hkeyed (bytes32 20) l
    have hstore : (stepLauncher parsedDriver 110 spent.spends storeFirst (bytes32 20)).1 = store' :=
      congrArg Prod.fst hrun
    rw [hstore, hrecord, Option.map_some] at htally
    obtain ⟨before, hbefore, heq⟩ := Option.map_eq_some_iff.1 htally.symm
    have hcount : before.referenceCount = record.referenceCount := congrArg (fun t => t.2.1) heq
    exact storeFirst_count hbefore (hcount.trans hfinal.1)

end ReplayExample

section

variable {Spend : Type} {D : Driver Spend} {fromHeight top : ℕ} {base store : SingletonStore}

/-- Calls below a height leave sound records. -/
theorem sound_runCalls {calls : List (Call Spend)} (hordered : Ordered Call.height calls)
    (htop : ∀ c ∈ calls, c.height ≤ top) :
    ∀ launcher, ∀ record ∈ runCalls D (fun _ => none) calls launcher, Sound top launcher record := by
  induction calls using List.reverseRecOn generalizing top with
  | nil => exact nofun
  | append_singleton calls c ih =>
      obtain ⟨hcalls, -, hlast⟩ := List.pairwise_append.1 hordered
      have hprior := ih hcalls fun c' hc' => hlast c' hc' c (List.mem_singleton_self c)
      intro l r hr
      unfold runCalls at hr
      rw [List.foldl_append, List.foldl_cons, List.foldl_nil, Call.run_eq] at hr
      exact (Sound.forEach le_rfl hprior _ l r hr).mono
        (htop c (List.mem_append_right _ (List.mem_singleton_self c)))

theorem early_runCalls {calls : List (Call Spend)} (hordered : Ordered Call.height calls) :
    Early fromHeight (runCalls D (fun _ => none) (below Call.height fromHeight calls)) := by
  intro l r hr
  have hlt : ∀ c ∈ below Call.height fromHeight calls, c.height < fromHeight :=
    fun c hc => (mem_below.1 hc).2
  have hpos : 0 < fromHeight := by
    by_contra hzero
    have hnone : below Call.height fromHeight calls = [] := by
      rw [List.eq_nil_iff_forall_not_mem]
      intro c hc
      have hc' := hlt c hc
      omega
    rw [hnone] at hr
    cases hr
  refine ⟨fromHeight - 1, by omega, sound_runCalls (hordered.below fromHeight) ?_ l r hr⟩
  intro c hc
  have hc' := hlt c hc
  omega

/-- **Calls above the fork that are undone keep what a rollback leaves.** -/
theorem StoreReplays.runCalls (hbase : Early fromHeight base) {calls : List (Call Spend)}
    (h : StoreReplays fromHeight top base store) {last : ℕ} (hlast : top ≤ last)
    (hordered : Ordered Call.height calls)
    (hcalls : ∀ c ∈ calls, top ≤ c.height ∧ fromHeight ≤ c.height ∧ c.height ≤ last)
    (hundone : ∀ past call future, calls = past ++ call :: future →
      call.Undone D fromHeight (Listener.runCalls D store past)) :
    StoreReplays fromHeight last base (Listener.runCalls D store calls) := by
  induction calls generalizing store top with
  | nil => exact h.mono hlast
  | cons c calls ih =>
      obtain ⟨hle, hheight, hc⟩ := hcalls c (List.mem_cons_self ..)
      obtain ⟨hfirst, hordered⟩ := List.pairwise_cons.1 hordered
      have hstep := h.forEach hbase hle hheight (hundone [] c calls rfl)
      rw [← Call.run_eq] at hstep
      refine ih hstep hc hordered (fun c' hc' => ?_) fun past call future heq => ?_
      · exact ⟨hfirst c' hc', (hcalls c' (List.mem_cons_of_mem _ hc')).2⟩
      · exact hundone (c :: past) call future (by rw [heq, List.cons_append])

/-- **Rollback is prefix replay**, for calls that a rollback undoes.  When the heights of
the calls do not decrease and a rollback does not leave the window, and every change at
the fork or above it of a record older than the fork is one that the rollback undoes,
then what is left is what the calls below the fork alone would have left. -/
theorem rollback_replays {calls : List (Call Spend)} (hordered : Ordered Call.height calls)
    (hwindow : ∀ c ∈ calls, c.height - 32 ≤ fromHeight)
    (hundone : ∀ past call future, calls = past ++ call :: future → fromHeight ≤ call.height →
      call.Undone D fromHeight (runCalls D (fun _ => none) past)) (launcher : Bytes) :
    (rollbackSingletons fromHeight (runCalls D (fun _ => none) calls) launcher).map
        FollowedSingleton.view
      = (runCalls D (fun _ => none) (calls.filter fun c => decide (c.height < fromHeight))
          launcher).map FollowedSingleton.view := by
  have hbase : Early fromHeight
      (runCalls D (fun _ => none) (below Call.height fromHeight calls)) := early_runCalls hordered
  have hsplit := hordered.split fromHeight
  have hstart : StoreReplays fromHeight fromHeight
      (runCalls D (fun _ => none) (below Call.height fromHeight calls))
      (runCalls D (fun _ => none) (below Call.height fromHeight calls)) := by
    refine ⟨fun l b hb => ?_, fun l hl r hr => ?_⟩
    · obtain ⟨low, hlow, hsound⟩ := hbase l b hb
      exact ⟨b, hb, (hsound.replays hlow).mono hlow.le⟩
    · rw [hl] at hr
      cases hr
  have hend : StoreReplays fromHeight (fromHeight + retentionWindow)
      (runCalls D (fun _ => none) (below Call.height fromHeight calls))
      (runCalls D (fun _ => none) calls) := by
    have hall : runCalls D (fun _ => none) calls
        = runCalls D (runCalls D (fun _ => none) (below Call.height fromHeight calls))
          (calls.filter fun c => decide (fromHeight ≤ c.height)) := by
      conv_lhs => rw [hsplit]
      exact List.foldl_append ..
    rw [hall]
    refine hstart.runCalls hbase (Nat.le_add_right ..) (hordered.filter _) (fun c hc => ?_)
      fun past call future heq => ?_
    · obtain ⟨hmem, hle⟩ := List.mem_filter.1 hc
      have hwindow' := hwindow c hmem
      have hle' := of_decide_eq_true hle
      unfold retentionWindow
      omega
    · have hcall : call ∈ calls.filter fun c => decide (fromHeight ≤ c.height) := by
        rw [heq]
        simp
      have hcalls := hundone (below Call.height fromHeight calls ++ past) call future
        (by rw [List.append_assoc, ← heq, ← hsplit])
        (of_decide_eq_true (List.mem_filter.1 hcall).2)
      unfold runCalls at hcalls ⊢
      rwa [List.foldl_append] at hcalls
  unfold rollbackSingletons
  show _ = (runCalls D (fun _ => none) (below Call.height fromHeight calls) launcher).map _
  cases hb : runCalls D (fun _ => none) (below Call.height fromHeight calls) launcher with
  | none =>
      cases hr : runCalls D (fun _ => none) calls launcher with
      | none => rfl
      | some r =>
          have hlate := (hend.new launcher hb r hr).le_discoveryHeight
          rw [Option.bind_some, rollbackRecord, if_pos hlate]
  | some b =>
      obtain ⟨r, hr, hreplays⟩ := hend.old launcher b hb
      obtain ⟨low, hlow, hsound⟩ := hbase launcher b hb
      obtain ⟨r', hr', hstatus, hcurrent, hcount, hheight⟩ :=
        hreplays.rollback hsound hlow le_rfl
      rw [hr, Option.bind_some, hr', Option.map_some, Option.map_some]
      unfold FollowedSingleton.view
      rw [hstatus, hcurrent, hcount, hheight]

end

/-- A spend that is rolled back. -/
theorem rollback_replays_spent : (rollbackSingletons 105 (runCalls parsedDriver (fun _ => none)
      [ReplayExample.found, ReplayExample.spent]) (Xchandles.Example.bytes32 20)).map
        FollowedSingleton.view
    = (runCalls parsedDriver (fun _ => none) [ReplayExample.found]
        (Xchandles.Example.bytes32 20)).map FollowedSingleton.view := by
  have hordered : Ordered Call.height [ReplayExample.found, ReplayExample.spent] :=
    List.pairwise_pair.2 (by decide)
  refine rollback_replays hordered (by decide) (fun past call future heq hle => ?_) _
  match past, heq with
  | [], heq =>
      rw [← (List.cons.inj heq).1] at hle
      exact absurd hle (by decide)
  | [c], heq =>
      obtain ⟨hc, hrest⟩ := List.cons.inj heq
      rw [← hc, ← (List.cons.inj hrest).1]
      exact ReplayExample.spent_undone
  | _ :: _ :: past, heq =>
      have hnil := (List.cons.inj (List.cons.inj heq).2).2
      simp at hnil

/-- **A reference that a rollback keeps.**  At height 110 a second handle is given to an
owner; a rollback to height 105 leaves two references to it, and there is one. -/
theorem rollback_not_replay :
    (rollbackSingletons 105 (runCalls parsedDriver (fun _ => none)
      [ReplayExample.found, ReplayExample.given]) (Xchandles.Example.bytes32 20)).map
        (fun record => record.referenceCount) = some 2 ∧
    (runCalls parsedDriver (fun _ => none) ([ReplayExample.found, ReplayExample.given].filter
      fun c => decide (c.height < 105)) (Xchandles.Example.bytes32 20)).map
        (fun record => record.referenceCount) = some 1 := by
  constructor
  · decide +kernel
  · decide +kernel

end SlotMachine.Listener
