import SlotMachine.Listener.History
import SlotMachine.Listener.RegistrationStore

/-!
# The statistics of a registry

The listener counts the handles that were registered, and keeps the last 50 events.  A
rollback walks these events backwards, and knows of no others.

* `rtake_append`, `rdropWhile_append_of_forall` — the last elements of a list.
* `recordEvent`, `stats_projectAll` — what the projections leave: a fold over the events.
* `stats_rollback` — **what a rollback leaves** of it.
* `Replayed`, `rollback_replays_stats_iff` — **when that is what the remaining events leave**.
-/

namespace SlotMachine.Listener

open Retention

/-! ## The last elements of a list -/

section

variable {α : Type*} {p : α → Bool}

theorem rtake_append (a b : List α) (c : ℕ) :
    (a ++ b).rtake c = a.rtake (c - b.length) ++ b.rtake c := by
  unfold List.rtake
  rw [List.drop_append, List.length_append]
  congr 1
  · by_cases hc : b.length ≤ c
    · congr 1
      omega
    · rw [List.drop_eq_nil_of_le (by omega), List.drop_eq_nil_of_le (by omega)]
  · congr 1
    omega

theorem length_rtake (l : List α) (c : ℕ) : (l.rtake c).length = min c l.length := by
  unfold List.rtake
  rw [List.length_drop]
  omega

theorem rtake_eq_self {l : List α} {c : ℕ} (h : l.length ≤ c) : l.rtake c = l := by
  unfold List.rtake
  rw [Nat.sub_eq_zero_of_le h, List.drop_zero]

/-- An element more is one of the last ones; the first of them goes, if there are too many. -/
theorem rtake_concat (l : List α) (x : α) {c : ℕ} (hc : 0 < c) :
    (l ++ [x]).rtake c
      = if c < (l.rtake c ++ [x]).length then (l.rtake c ++ [x]).tail else l.rtake c ++ [x] := by
  obtain ⟨c, rfl⟩ : ∃ k, c = k + 1 := ⟨c - 1, by omega⟩
  rw [List.rtake_concat_succ, List.length_append, List.length_singleton, length_rtake]
  split
  · next hlt =>
      have htail : (l.rtake (c + 1)).tail = l.rtake c := by
        unfold List.rtake
        rw [List.tail_drop]
        congr 1
        omega
      have hne : l.rtake (c + 1) ≠ [] := by
        rw [← List.length_pos_iff, length_rtake]
        omega
      rw [List.tail_append_of_ne_nil hne, htail]
  · next hge => rw [rtake_eq_self (l := l) (by omega), rtake_eq_self (l := l) (by omega)]

/-- The elements that end a list. -/
theorem rdropWhile_append_of_forall {a b : List α} (ha : ∀ x ∈ a, p x = false)
    (hb : ∀ x ∈ b, p x = true) :
    (a ++ b).rdropWhile p = a ∧ (a ++ b).rtakeWhile p = b := by
  induction b using List.reverseRecOn with
  | nil =>
      rw [List.append_nil]
      constructor
      · rw [List.rdropWhile_eq_self_iff]
        intro hne
        rw [ha _ (List.getLast_mem hne)]
        exact Bool.false_ne_true
      · rw [List.rtakeWhile_eq_nil_iff]
        intro hne
        rw [ha _ (List.getLast_mem hne)]
        exact Bool.false_ne_true
  | append_singleton b x ih =>
      have hx := hb x (List.mem_append_right _ (List.mem_singleton_self x))
      obtain ⟨hdrop, htake⟩ := ih fun y hy => hb y (List.mem_append_left _ hy)
      rw [← List.append_assoc, List.rdropWhile_concat_pos _ _ _ hx,
        List.rtakeWhile_concat_pos _ _ _ hx, htake]
      exact ⟨hdrop, rfl⟩

end

/-! ## What the projections leave -/

/-- An event is recorded. -/
def recordEvent (stats : RegistryRegistrationStats) (ev : StoredRegistrationEvent) :
    RegistryRegistrationStats :=
  if ev.actionKind = .register then
    { pushRegistrationEvent stats ev with
      totalRegistered := min (stats.totalRegistered + 1) (2 ^ 64 - 1) }
  else pushRegistrationEvent stats ev

/-- The events that the logs of a block report. -/
def eventsOf (registryLauncherId : Bytes) (block : ℕ × List ActionLog) :
    List StoredRegistrationEvent :=
  (block.2.filterMap (storedRegistration registryLauncherId block.1)).map fun stored =>
    ⟨stored.handle, stored.actionKind, block.1⟩

/-- All blocks of a registry are projected, from empty stores. -/
def projectAll (registryLauncherId : Bytes) (blocks : List (ℕ × List ActionLog)) :
    RegistrationStore :=
  blocks.foldl (fun store block =>
    projectRegistrationsFromLogs store registryLauncherId block.1 block.2) .empty

/-- The number of registrations. -/
def registers (evs : List StoredRegistrationEvent) : ℕ :=
  evs.countP fun ev => decide (ev.actionKind = .register)

/-- The statistics that some events leave. -/
def statsOf (evs : List StoredRegistrationEvent) : RegistryRegistrationStats :=
  evs.foldl recordEvent .default

theorem stats_projectRegistrationsFromLogs (store : RegistrationStore) (registry : Bytes)
    (block : ℕ × List ActionLog) :
    (projectRegistrationsFromLogs store registry block.1 block.2).stats registry
      = (eventsOf registry block).foldl recordEvent (store.stats registry) := by
  unfold projectRegistrationsFromLogs eventsOf
  generalize block.2.filterMap (storedRegistration registry block.1) = facts
  induction facts generalizing store with
  | nil => rfl
  | cons stored facts ih =>
      rw [List.foldl_cons, ih, List.map_cons, List.foldl_cons]
      congr 1
      exact Function.update_self ..

/-- **The projections record the events.** -/
theorem stats_projectAll (registry : Bytes) (blocks : List (ℕ × List ActionLog)) :
    (projectAll registry blocks).stats registry = statsOf (blocks.flatMap (eventsOf registry)) := by
  unfold projectAll statsOf
  induction blocks using List.reverseRecOn with
  | nil => rfl
  | append_singleton blocks block ih =>
      rw [List.foldl_append, List.foldl_cons, List.foldl_nil, stats_projectRegistrationsFromLogs,
        ih, List.flatMap_append, List.foldl_append, List.flatMap_singleton]

/-- **The last 50 events are kept.** -/
theorem events_statsOf (evs : List StoredRegistrationEvent) :
    (statsOf evs).events = evs.rtake recentRegistrationEventsMax := by
  induction evs using List.reverseRecOn with
  | nil => rfl
  | append_singleton evs ev ih =>
      have hpushed : (pushRegistrationEvent (statsOf evs) ev).events
          = (evs ++ [ev]).rtake recentRegistrationEventsMax := by
        rw [rtake_concat _ _ (by decide), ← ih]
        rfl
      unfold statsOf at hpushed ⊢
      rw [List.foldl_append, List.foldl_cons, List.foldl_nil, recordEvent, ← hpushed]
      split <;> rfl

theorem registers_append (a b : List StoredRegistrationEvent) :
    registers (a ++ b) = registers a + registers b := List.countP_append ..

/-- The registrations are counted, up to the largest `u64`. -/
theorem totalRegistered_statsOf (evs : List StoredRegistrationEvent) :
    (statsOf evs).totalRegistered = min (registers evs) (2 ^ 64 - 1) := by
  induction evs using List.reverseRecOn with
  | nil => rfl
  | append_singleton evs ev ih =>
      unfold statsOf at ih ⊢
      rw [List.foldl_append, List.foldl_cons, List.foldl_nil, registers_append, recordEvent]
      split
      · next hregister =>
          have hone : registers [ev] = 1 := by simp [registers, hregister]
          show min ((evs.foldl recordEvent .default).totalRegistered + 1) (2 ^ 64 - 1) = _
          rw [ih, hone]
          omega
      · next hother =>
          have hzero : registers [ev] = 0 := by simp [registers, hother]
          show (evs.foldl recordEvent .default).totalRegistered = _
          rw [ih, hzero, Nat.add_zero]

/-! ## What a rollback leaves -/

/-- The registrations that are taken back are subtracted. -/
theorem foldl_orphanEvent (orphaned : List StoredRegistrationEvent) (total : ℕ) :
    orphaned.foldl orphanEvent total = total - registers orphaned := by
  induction orphaned generalizing total with
  | nil => rfl
  | cons ev orphaned ih =>
      rw [List.foldl_cons, ih, orphanEvent]
      split
      · next hregister =>
          have : registers (ev :: orphaned) = registers orphaned + 1 := by
            simp [registers, hregister]
          omega
      · next hother =>
          have : registers (ev :: orphaned) = registers orphaned := by simp [registers, hother]
          omega

section

variable {fromHeight : ℕ} {kept orphaned : List StoredRegistrationEvent}

/-- **A rollback takes back the events that are kept**, and only those. -/
theorem stats_rollback (hkept : ∀ ev ∈ kept, ev.confirmationHeight < fromHeight)
    (horphaned : ∀ ev ∈ orphaned, fromHeight ≤ ev.confirmationHeight) :
    rollbackStatsToBefore (statsOf (kept ++ orphaned)) fromHeight
      = ⟨min (registers (kept ++ orphaned)) (2 ^ 64 - 1)
            - registers (orphaned.rtake recentRegistrationEventsMax),
          kept.rtake (recentRegistrationEventsMax - orphaned.length)⟩ := by
  have hsplit := rdropWhile_append_of_forall
    (p := fun ev : StoredRegistrationEvent => decide (fromHeight ≤ ev.confirmationHeight))
    (a := kept.rtake (recentRegistrationEventsMax - orphaned.length))
    (b := orphaned.rtake recentRegistrationEventsMax)
    (fun ev hev => decide_eq_false (Nat.not_le.2 (hkept ev (List.mem_of_mem_drop hev))))
    fun ev hev => decide_eq_true (horphaned ev (List.mem_of_mem_drop hev))
  unfold rollbackStatsToBefore
  rw [events_statsOf, totalRegistered_statsOf, rtake_append, hsplit.1, hsplit.2]
  dsimp only
  rw [foldl_orphanEvent]
  congr 2
  exact List.countP_reverse

/-- Fewer of the last elements are the same, if there are no more, or none at all. -/
theorem rtake_sub_eq_iff {α : Type*} (a : List α) (n c : ℕ) :
    a.rtake (c - n) = a.rtake c ↔ a = [] ∨ n = 0 ∨ a.length + n ≤ c ∨ c = 0 := by
  constructor
  · intro heq
    have hlength := congrArg List.length heq
    rw [length_rtake, length_rtake] at hlength
    rw [← List.length_eq_zero_iff]
    omega
  · rintro (rfl | rfl | hle | rfl)
    · rw [List.rtake_nil, List.rtake_nil]
    · rfl
    · rw [rtake_eq_self (by omega), rtake_eq_self (by omega)]
    · rw [Nat.zero_sub]

/-- The registrations, and those among the last events. -/
theorem registers_rtake (evs : List StoredRegistrationEvent) (c : ℕ) :
    registers (evs.take (evs.length - c)) + registers (evs.rtake c) = registers evs := by
  rw [← registers_append]
  exact congrArg registers (List.take_append_drop ..)

theorem registers_le_length (evs : List StoredRegistrationEvent) : registers evs ≤ evs.length :=
  List.countP_le_length

/-- **The statistics are what the events below a height leave.** -/
def Replayed (evs : List StoredRegistrationEvent) (fromHeight : ℕ)
    (stats : RegistryRegistrationStats) : Prop :=
  stats.totalRegistered
      = registers (below StoredRegistrationEvent.confirmationHeight fromHeight evs) ∧
    stats.events = (below StoredRegistrationEvent.confirmationHeight fromHeight evs).rtake
      recentRegistrationEventsMax

/-- All events are kept, or nothing is taken back, or nothing but what is kept counts. -/
def Rewindable (evs : List StoredRegistrationEvent) (fromHeight : ℕ) : Prop :=
  evs.length ≤ recentRegistrationEventsMax ∨
  ((∀ ev ∈ evs, ev.confirmationHeight < fromHeight) ∧ registers evs < 2 ^ 64) ∨
  ((∀ ev ∈ evs, fromHeight ≤ ev.confirmationHeight) ∧
    registers (evs.take (evs.length - recentRegistrationEventsMax)) = 0)

theorem replayed_append_iff (hkept : ∀ ev ∈ kept, ev.confirmationHeight < fromHeight)
    (horphaned : ∀ ev ∈ orphaned, fromHeight ≤ ev.confirmationHeight) :
    Replayed (kept ++ orphaned) fromHeight
        (rollbackStatsToBefore (statsOf (kept ++ orphaned)) fromHeight) ↔
      Rewindable (kept ++ orphaned) fromHeight := by
  have hbelow : below StoredRegistrationEvent.confirmationHeight fromHeight (kept ++ orphaned)
      = kept := by
    rw [below_append, below_eq_self hkept]
    have hnone : below StoredRegistrationEvent.confirmationHeight fromHeight orphaned = [] :=
      List.filter_eq_nil_iff.2 fun ev hev =>
        Bool.eq_false_iff.1 (decide_eq_false (Nat.not_lt.2 (horphaned ev hev)))
    rw [hnone, List.append_nil]
  have hsum := registers_rtake orphaned recentRegistrationEventsMax
  have hfew := registers_le_length (orphaned.rtake recentRegistrationEventsMax)
  rw [length_rtake] at hfew
  have hmax : recentRegistrationEventsMax = 50 := rfl
  unfold Replayed Rewindable
  rw [hbelow, stats_rollback hkept horphaned, registers_append]
  dsimp only
  rw [rtake_sub_eq_iff, List.length_append]
  by_cases hnothing : orphaned = []
  · subst hnothing
    have hzero : registers ([] : List StoredRegistrationEvent) = 0 := rfl
    have hle := registers_le_length kept
    rw [List.append_nil, List.rtake_nil, hzero]
    constructor
    · rintro ⟨htotal, -⟩
      exact Or.inr (Or.inl ⟨hkept, by omega⟩)
    · intro hcase
      refine ⟨?_, Or.inr (Or.inl rfl)⟩
      rcases hcase with hshort | ⟨-, hcount⟩ | ⟨hall, -⟩
      · rw [List.length_nil] at hshort
        omega
      · omega
      · cases kept with
        | nil => rfl
        | cons ev kept =>
            have hlow := hkept ev List.mem_cons_self
            have hhigh := hall ev List.mem_cons_self
            omega
  · by_cases hall : kept = []
    · subst hall
      rw [List.nil_append, List.length_nil, Nat.zero_add]
      have hzero : registers ([] : List StoredRegistrationEvent) = 0 := rfl
      have hle := registers_le_length orphaned
      rw [hzero, Nat.zero_add]
      constructor
      · rintro ⟨htotal, -⟩
        exact Or.inr (Or.inr ⟨horphaned, by omega⟩)
      · intro hcase
        refine ⟨?_, Or.inl rfl⟩
        rcases hcase with hshort | ⟨hlow, -⟩ | ⟨-, hcount⟩
        · rw [rtake_eq_self hshort]
          omega
        · obtain ⟨ev, hev⟩ := List.exists_mem_of_ne_nil _ hnothing
          have := hlow ev hev
          have := horphaned ev hev
          omega
        · omega
    · obtain ⟨last, hlast⟩ := List.exists_mem_of_ne_nil _ hnothing
      obtain ⟨first, hfirst⟩ := List.exists_mem_of_ne_nil _ hall
      have hlength := List.length_pos_iff.2 hnothing
      have hle := registers_le_length kept
      have hle' := registers_le_length orphaned
      constructor
      · rintro ⟨-, hevents⟩
        refine Or.inl ?_
        rcases hevents with h | h | h | h
        · exact absurd h hall
        · omega
        · exact h
        · cases h
      · rintro (hshort | ⟨hlow, -⟩ | ⟨hhigh, -⟩)
        · rw [rtake_eq_self (l := orphaned) (by omega)]
          exact ⟨by omega, Or.inr (Or.inr (Or.inl hshort))⟩
        · have := hlow last (List.mem_append_right _ hlast)
          have := horphaned last hlast
          omega
        · have := hhigh first (List.mem_append_left _ hfirst)
          have := hkept first hfirst
          omega

/-- The events of blocks in order are in order. -/
theorem ordered_eventsOf (registry : Bytes) {blocks : List (ℕ × List ActionLog)}
    (h : Ordered Prod.fst blocks) :
    Ordered StoredRegistrationEvent.confirmationHeight (blocks.flatMap (eventsOf registry)) := by
  have hheight : ∀ block, ∀ ev ∈ eventsOf registry block, ev.confirmationHeight = block.1 := by
    intro block ev hev
    obtain ⟨stored, -, rfl⟩ := List.mem_map.1 hev
    rfl
  unfold Ordered
  rw [List.pairwise_flatMap]
  constructor
  · intro block _
    refine List.pairwise_iff_forall_sublist.2 fun {ev ev'} hsub => ?_
    have hmem := hsub.subset
    rw [hheight block ev (hmem List.mem_cons_self),
      hheight block ev' (hmem (List.mem_cons_of_mem _ List.mem_cons_self))]
  · refine h.imp fun {block block'} hle ev hev ev' hev' => ?_
    rw [hheight block ev hev, hheight block' ev' hev']
    exact hle

/-- **When a rollback of the statistics is a replay** of what is left: exactly if no event
that counts is beyond those that are kept. -/
theorem rollback_replays_stats_iff (registry : Bytes) {blocks : List (ℕ × List ActionLog)}
    (hordered : Ordered Prod.fst blocks) (fromHeight : ℕ) :
    Replayed (blocks.flatMap (eventsOf registry)) fromHeight
        ((rollbackRegistrations (projectAll registry blocks) fromHeight).stats registry) ↔
      Rewindable (blocks.flatMap (eventsOf registry)) fromHeight := by
  show Replayed _ fromHeight
    (rollbackStatsToBefore ((projectAll registry blocks).stats registry) fromHeight) ↔ _
  rw [stats_projectAll]
  have hsplit := (ordered_eventsOf registry hordered).split fromHeight
  rw [hsplit]
  refine replayed_append_iff (fun ev hev => (mem_below.1 hev).2) fun ev hev => ?_
  exact of_decide_eq_true (List.mem_filter.1 hev).2

end

/-! ## Fifty-one registrations, as an example -/

namespace StatisticsExample

open HistoryExample (Registration low high)
open Xchandles.Example (bytes32)

/-- The log of a registration. -/
def registered (n : ℕ) : ActionLog :=
  Registration.log ⟨natToBytes 2 n, low, high, bytes32 20⟩

/-- Some registrations at the height 100, and one more at 120. -/
def blocks (n : ℕ) : List (ℕ × List ActionLog) :=
  [(100, (List.range n).map registered), (120, [registered n])]

theorem ordered_blocks (n : ℕ) : Ordered Prod.fst (blocks n) := by
  unfold Ordered blocks
  simp

theorem flatMap_blocks (n : ℕ) : (blocks n).flatMap (eventsOf (bytes32 12))
    = eventsOf (bytes32 12) (100, (List.range n).map registered)
      ++ eventsOf (bytes32 12) (120, [registered n]) := by
  simp [blocks]

theorem height_eventsOf {block : ℕ × List ActionLog} {ev : StoredRegistrationEvent}
    (h : ev ∈ eventsOf (bytes32 12) block) : ev.confirmationHeight = block.1 := by
  obtain ⟨stored, -, rfl⟩ := List.mem_map.1 h
  rfl

end StatisticsExample

open StatisticsExample in
open Xchandles.Example (bytes32) in
/-- With two registrations a rollback is a replay. -/
theorem rollback_replays_stats_two : Ordered Prod.fst (blocks 1) ∧
    Replayed ((blocks 1).flatMap (eventsOf (bytes32 12))) 110
      ((rollbackRegistrations (projectAll (bytes32 12) (blocks 1)) 110).stats (bytes32 12)) :=
  ⟨ordered_blocks 1,
    (rollback_replays_stats_iff (bytes32 12) (ordered_blocks 1) 110).2 (Or.inl (by decide))⟩

open StatisticsExample in
open Xchandles.Example (bytes32) in
/-- **With one too many for the list, a rollback loses the oldest**: 50 events are left, and
49 are listed. -/
theorem rollback_replays_stats_fails :
    (below StoredRegistrationEvent.confirmationHeight 110
      ((blocks 50).flatMap (eventsOf (bytes32 12)))).length = 50 ∧
    ((rollbackRegistrations (projectAll (bytes32 12) (blocks 50)) 110).stats
      (bytes32 12)).events.length = 49 ∧
    ¬ Replayed ((blocks 50).flatMap (eventsOf (bytes32 12))) 110
      ((rollbackRegistrations (projectAll (bytes32 12) (blocks 50)) 110).stats (bytes32 12)) := by
  have hkept : ∀ ev ∈ eventsOf (bytes32 12) (100, (List.range 50).map registered),
      ev.confirmationHeight < 110 := by
    intro ev hev
    rw [height_eventsOf hev]
    decide
  have horphaned : ∀ ev ∈ eventsOf (bytes32 12) (120, [registered 50]),
      110 ≤ ev.confirmationHeight := by
    intro ev hev
    rw [height_eventsOf hev]
    decide
  have hlength : (below StoredRegistrationEvent.confirmationHeight 110
      ((blocks 50).flatMap (eventsOf (bytes32 12)))).length = 50 := by decide
  have hlisted : ((rollbackRegistrations (projectAll (bytes32 12) (blocks 50)) 110).stats
      (bytes32 12)).events.length = 49 := by
    show (rollbackStatsToBefore ((projectAll (bytes32 12) (blocks 50)).stats (bytes32 12))
      110).events.length = 49
    rw [stats_projectAll, flatMap_blocks, stats_rollback hkept horphaned]
    exact length_rtake ..
  refine ⟨hlength, hlisted, fun hreplayed => ?_⟩
  have hevents := congrArg List.length hreplayed.2
  rw [hlisted, length_rtake, hlength] at hevents
  exact absurd hevents (by decide)

end SlotMachine.Listener
