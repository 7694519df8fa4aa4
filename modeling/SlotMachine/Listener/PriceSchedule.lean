import Mathlib.Data.List.Nodup
import Mathlib.Data.List.TakeWhile
import SlotMachine.Listener.Directory

/-!
# The schedule of base prices

The base price of a registry goes through a schedule, row by row, each row from its timestamp
on.  The listener knows the price that the chain has, and works out from it which rows are
still to be executed.

* `remainingUnrollStart` — the first of them (`listener/price_schedule.rs`).
* `lookupPrice` — the request that lists them (`listener/api.rs`).
* `committedAfter`, `dueRows` — the price after some rows, and the rows that are due.
* `remaining_iff` — **when the rows are the right ones**: not when the launch price is also
  the price of the row that decides.
-/

namespace SlotMachine.Listener

/-! ## The schedule -/

/-- `LAUNCH_BASE_PRICE`: the base price before the first row. -/
def launchBasePrice : ℕ := 1

/-- `ScheduleGeneration`. -/
structure ScheduleGeneration where
  activationTimestamp : ℕ
  basePrice : ℕ
  deriving DecidableEq

/-- `TESTNET11_PRICE_SCHEDULE`. -/
def testnet11PriceSchedule : List (ℕ × ℕ) :=
  [(1786885200, 9), (1786892400, 8), (1786924800, 7), (1786935600, 6), (1786953600, 5),
    (1786971600, 4), (1786978800, 3), (1787011200, 2), (1787022000, 1)]

/-- `testnet11_generations`. -/
def testnet11Generations : List ScheduleGeneration :=
  testnet11PriceSchedule.map fun row => ⟨row.1, row.2⟩

/-- `Iterator::rposition`: the last place where a test holds. -/
def rposition {α : Type*} (p : α → Bool) (l : List α) : Option ℕ :=
  (l.reverse.findIdx? p).map fun i => l.length - 1 - i

/-- `remaining_unroll_start`. -/
def remainingUnrollStart (schedule : List ScheduleGeneration) (committedBase : ℕ)
    (confirmedTimestamp : ℕ) : ℕ :=
  let lastDue := rposition (fun row => decide (row.activationTimestamp ≤ confirmedTimestamp))
    schedule
  let lastDuePrice := (lastDue.bind fun i => schedule[i]?.map ScheduleGeneration.basePrice).getD
    launchBasePrice
  if committedBase = lastDuePrice then (lastDue.map (· + 1)).getD 0
  else if committedBase = launchBasePrice then 0
  else ((schedule.findIdx? fun row => decide (row.basePrice = committedBase)).map (· + 1)).getD 0

/-! ## The request -/

/-- `ListenerApiState`, with what the prices are read from. -/
structure PriceApiState extends ListenerApiState where
  committedBasePrice : Bytes → Option ℕ
  priceSchedule : List ScheduleGeneration

/-- `PriceResponse`. -/
structure PriceResponse where
  indexedPeakHeight : ℕ
  confirmedTimestamp : ℕ
  currentBasePrice : ℕ
  unrolls : List ScheduleGeneration

/-- `lookup_price`. -/
def lookupPrice (now : ℕ) (state : PriceApiState) (launcherId : Option String) :
    Except ApiError PriceResponse := do
  let registry ← selectRegistry state.toListenerApiState launcherId
  let (indexedPeakHeight, confirmedTimestamp) ← requireFresh state.toListenerApiState now
  let committed := state.committedBasePrice registry
  let pricing := state.registryPricing registry
  let currentBasePrice := (committed.or (pricing.map RegistryPricing.basePrice)).getD 1
  let start := remainingUnrollStart state.priceSchedule currentBasePrice confirmedTimestamp
  let unrolls := if start ≤ state.priceSchedule.length then state.priceSchedule.drop start else []
  return { indexedPeakHeight, confirmedTimestamp, currentBasePrice, unrolls }

/-! ## Rows -/

/-- The base price after the first rows. -/
def committedAfter (schedule : List ScheduleGeneration) (applied : ℕ) : ℕ :=
  ((schedule.take applied).getLast?.map ScheduleGeneration.basePrice).getD launchBasePrice

/-- The rows that are due. -/
def dueRows (schedule : List ScheduleGeneration) (confirmedTimestamp : ℕ) :
    List ScheduleGeneration :=
  schedule.takeWhile fun row => decide (row.activationTimestamp ≤ confirmedTimestamp)

/-- A schedule with rising timestamps and different prices. -/
structure WellFormed (schedule : List ScheduleGeneration) : Prop where
  rising : schedule.Pairwise fun a b => a.activationTimestamp < b.activationTimestamp
  nodup : (schedule.map ScheduleGeneration.basePrice).Nodup

/-- A test that holds of a first part of a list, and of nothing behind it. -/
theorem rposition_eq {α : Type*} {p : α → Bool} {l : List α}
    (h : ∀ x ∈ l.dropWhile p, p x = false) :
    rposition p l = if l.takeWhile p = [] then none else some ((l.takeWhile p).length - 1) := by
  have hsplit : l.reverse = (l.dropWhile p).reverse ++ (l.takeWhile p).reverse := by
    rw [← List.reverse_append, List.takeWhile_append_dropWhile]
  have hlength : l.length = (l.takeWhile p).length + (l.dropWhile p).length := by
    rw [← List.length_append, List.takeWhile_append_dropWhile]
  have hrest : (l.dropWhile p).reverse.findIdx? p = none := by
    rw [List.findIdx?_eq_none_iff]
    exact fun x hx => h x (List.mem_reverse.1 hx)
  unfold rposition
  rw [hsplit, List.findIdx?_append, hrest, Option.none_or]
  split
  · next hnil => rw [hnil]; rfl
  · next hne =>
      obtain ⟨x, rest, hx⟩ := List.exists_cons_of_ne_nil (List.reverse_ne_nil_iff.2 hne)
      have hp : p x = true := by
        refine List.mem_takeWhile_imp (l := l) ?_
        rw [← List.mem_reverse, hx]
        exact List.mem_cons_self
      rw [hx, List.findIdx?_cons, if_pos hp, hlength]
      simp only [Option.map_some, List.length_reverse]
      congr 1
      omega

section

variable {schedule : List ScheduleGeneration} {confirmedTimestamp applied : ℕ}

theorem dueRows_eq_take (schedule : List ScheduleGeneration) (confirmedTimestamp : ℕ) :
    dueRows schedule confirmedTimestamp
      = schedule.take (dueRows schedule confirmedTimestamp).length :=
  List.prefix_iff_eq_take.1 (List.takeWhile_prefix _)

/-- No row behind one that is not due is due. -/
theorem WellFormed.not_due (h : WellFormed schedule) : ∀ row ∈ schedule.dropWhile
    (fun row => decide (row.activationTimestamp ≤ confirmedTimestamp)),
    decide (row.activationTimestamp ≤ confirmedTimestamp) = false := by
  cases hrest : schedule.dropWhile
      (fun row => decide (row.activationTimestamp ≤ confirmedTimestamp)) with
  | nil => exact fun row hrow => absurd hrow List.not_mem_nil
  | cons first rest =>
      have hrising := h.rising.sublist (List.dropWhile_sublist
        (fun row => decide (row.activationTimestamp ≤ confirmedTimestamp)))
      have hfirst := List.head?_dropWhile_not
        (fun row : ScheduleGeneration => decide (row.activationTimestamp ≤ confirmedTimestamp))
        schedule
      rw [hrest] at hrising hfirst
      have hlate : confirmedTimestamp < first.activationTimestamp := by simpa using hfirst
      intro row hrow
      rcases List.mem_cons.1 hrow with rfl | hrow
      · simpa using hlate
      · have hlt := (List.pairwise_cons.1 hrising).1 row hrow
        simpa using hlate.trans hlt

/-- The rows that have been applied are due. -/
theorem WellFormed.applied_le (h : WellFormed schedule) (happlied : applied ≤ schedule.length)
    (hactive : ∀ row ∈ (schedule.take applied).getLast?,
      row.activationTimestamp ≤ confirmedTimestamp) :
    applied ≤ (dueRows schedule confirmedTimestamp).length := by
  by_contra hlt
  have hd : (dueRows schedule confirmedTimestamp).length < applied := not_le.1 hlt
  obtain ⟨n, rfl⟩ := Nat.exists_eq_succ_of_ne_zero (Nat.ne_of_gt (Nat.zero_lt_of_lt hd))
  -- the last row that was applied lies behind the due ones
  have hsplit : schedule = dueRows schedule confirmedTimestamp ++ schedule.dropWhile
      (fun row => decide (row.activationTimestamp ≤ confirmedTimestamp)) :=
    List.takeWhile_append_dropWhile.symm
  have hrow : schedule[n]? = (schedule.dropWhile
      (fun row => decide (row.activationTimestamp ≤ confirmedTimestamp)))[n
        - (dueRows schedule confirmedTimestamp).length]? := by
    conv_lhs => rw [hsplit]
    exact List.getElem?_append_right (by omega)
  have hlast : (schedule.take (n + 1)).getLast? = some schedule[n] := by
    rw [List.take_succ_eq_append_getElem happlied, List.getLast?_append]
    rfl
  have hdue := hactive schedule[n] (by rw [hlast]; rfl)
  rw [List.getElem?_eq_getElem happlied] at hrow
  have hnot := h.not_due schedule[n] (List.mem_of_getElem? hrow.symm)
  simp [hdue] at hnot

/-- The place of the last row that is due. -/
theorem WellFormed.lastDue_eq (h : WellFormed schedule) :
    rposition (fun row => decide (row.activationTimestamp ≤ confirmedTimestamp)) schedule
      = if dueRows schedule confirmedTimestamp = [] then none
        else some ((dueRows schedule confirmedTimestamp).length - 1) :=
  rposition_eq h.not_due

theorem committedAfter_succ (h : applied < schedule.length) :
    committedAfter schedule (applied + 1) = schedule[applied].basePrice := by
  unfold committedAfter
  rw [List.take_succ_eq_append_getElem h, List.getLast?_append]
  rfl

/-- A price is that of one row only. -/
theorem WellFormed.findIdx?_eq (h : WellFormed schedule) (happlied : applied < schedule.length) :
    schedule.findIdx? (fun row => decide (row.basePrice = schedule[applied].basePrice))
      = some applied := by
  rw [List.findIdx?_eq_some_iff_getElem]
  refine ⟨happlied, by simp, fun j hj hprice => hj.ne ?_⟩
  have hsame : schedule[j].basePrice = schedule[applied].basePrice := by simpa using hprice
  have hnodup := h.nodup
  have hjlt : j < (schedule.map fun row => row.basePrice).length := by
    simpa using hj.trans happlied
  have hlt : applied < (schedule.map fun row => row.basePrice).length := by simpa using happlied
  have hget : (schedule.map fun row => row.basePrice)[j]
      = (schedule.map fun row => row.basePrice)[applied] := by simpa using hsame
  exact hnodup.getElem_inj_iff.1 hget

/-! ## The first row that remains -/

/-- **The price tells which rows have been applied**: at launch the last row that is due has
another price, and later, if rows that are due have not been applied, the price is not that
of the launch. -/
def Telling (schedule : List ScheduleGeneration) (applied confirmedTimestamp : ℕ) : Prop :=
  if applied = 0 then
    ∀ row ∈ (dueRows schedule confirmedTimestamp).getLast?, row.basePrice ≠ launchBasePrice
  else applied < (dueRows schedule confirmedTimestamp).length →
    committedAfter schedule applied ≠ launchBasePrice

/-- The price of the last row that is due. -/
theorem WellFormed.lastDuePrice_eq (h : WellFormed schedule) {due : ℕ}
    (hdue : (dueRows schedule confirmedTimestamp).length = due + 1)
    (hlt : due < schedule.length) :
    ((rposition (fun row => decide (row.activationTimestamp ≤ confirmedTimestamp)) schedule).bind
      fun i => schedule[i]?.map ScheduleGeneration.basePrice).getD launchBasePrice
      = schedule[due].basePrice := by
  have hne : dueRows schedule confirmedTimestamp ≠ [] := by
    intro hnil
    rw [hnil] at hdue
    cases hdue
  rw [h.lastDue_eq, if_neg hne, hdue, Nat.add_sub_cancel, Option.bind_some,
    List.getElem?_eq_getElem hlt]
  rfl

/-- Nothing is due, and nothing has been applied. -/
theorem WellFormed.remaining_of_none_due (h : WellFormed schedule)
    (hdue : dueRows schedule confirmedTimestamp = []) :
    remainingUnrollStart schedule launchBasePrice confirmedTimestamp = 0 := by
  unfold remainingUnrollStart
  rw [h.lastDue_eq, if_pos hdue]
  rfl

/-- **What the price leads to**, if some rows are due. -/
theorem WellFormed.remaining_eq (h : WellFormed schedule) {due : ℕ}
    (hdue : (dueRows schedule confirmedTimestamp).length = due + 1) (hlt : due < schedule.length)
    (committedBase : ℕ) : remainingUnrollStart schedule committedBase confirmedTimestamp
      = if committedBase = schedule[due].basePrice then due + 1
        else if committedBase = launchBasePrice then 0
        else ((schedule.findIdx? fun row => decide (row.basePrice = committedBase)).map
          (· + 1)).getD 0 := by
  have hne : dueRows schedule confirmedTimestamp ≠ [] := by
    intro hnil
    rw [hnil] at hdue
    cases hdue
  have hplace : (rposition (fun row => decide (row.activationTimestamp ≤ confirmedTimestamp))
      schedule).map (· + 1) = some (due + 1) := by
    rw [h.lastDue_eq, if_neg hne, hdue, Nat.add_sub_cancel]
    rfl
  unfold remainingUnrollStart
  simp only [h.lastDuePrice_eq hdue hlt, hplace, Option.getD_some]

/-- The last row that is due. -/
theorem getLast?_dueRows {due : ℕ}
    (hdue : (dueRows schedule confirmedTimestamp).length = due + 1) (hlt : due < schedule.length) :
    (dueRows schedule confirmedTimestamp).getLast? = some schedule[due] := by
  rw [dueRows_eq_take, hdue, List.take_succ_eq_append_getElem hlt, List.getLast?_append]
  rfl

theorem length_dueRows_le (schedule : List ScheduleGeneration) (confirmedTimestamp : ℕ) :
    (dueRows schedule confirmedTimestamp).length ≤ schedule.length :=
  (List.takeWhile_prefix _).length_le

/-- **At launch** the last row that is due decides. -/
theorem WellFormed.remaining_launch_iff (h : WellFormed schedule) {due : ℕ}
    (hdue : (dueRows schedule confirmedTimestamp).length = due + 1) (hlt : due < schedule.length) :
    remainingUnrollStart schedule launchBasePrice confirmedTimestamp = 0 ↔
      schedule[due].basePrice ≠ launchBasePrice := by
  rw [h.remaining_eq hdue hlt]
  by_cases hprice : launchBasePrice = schedule[due].basePrice
  · rw [if_pos hprice]
    exact iff_of_false (Nat.succ_ne_zero due) fun hne => hne hprice.symm
  · rw [if_neg hprice, if_pos rfl]
    exact iff_of_true rfl (Ne.symm hprice)

/-- **Later** the price is that of the last row that is due, or is looked up. -/
theorem WellFormed.remaining_applied_iff (h : WellFormed schedule) {due : ℕ}
    (hdue : (dueRows schedule confirmedTimestamp).length = due + 1) (hlt : due < schedule.length)
    (hle : applied ≤ due) :
    remainingUnrollStart schedule schedule[applied].basePrice confirmedTimestamp = applied + 1 ↔
      (applied < due → schedule[applied].basePrice ≠ launchBasePrice) := by
  rw [h.remaining_eq hdue hlt]
  rcases Nat.lt_or_eq_of_le hle with hbehind | rfl
  · have hother : schedule[applied].basePrice ≠ schedule[due].basePrice := by
      intro hprice
      have hfound := h.findIdx?_eq hlt
      rw [← hprice, h.findIdx?_eq (by omega)] at hfound
      exact hbehind.ne (Option.some.inj hfound)
    rw [if_neg hother]
    by_cases hprice : schedule[applied].basePrice = launchBasePrice
    · rw [if_pos hprice]
      exact iff_of_false (Nat.succ_ne_zero applied).symm fun hnot => hnot hbehind hprice
    · rw [if_neg hprice, h.findIdx?_eq (by omega)]
      exact iff_of_true rfl fun _ => hprice
  · rw [if_pos rfl]
    exact iff_of_true rfl fun hlt => absurd hlt (lt_irrefl _)

/-- **When the first row that remains is found.** -/
theorem WellFormed.remaining_eq_iff (h : WellFormed schedule) (happlied : applied ≤ schedule.length)
    (hactive : ∀ row ∈ (schedule.take applied).getLast?,
      row.activationTimestamp ≤ confirmedTimestamp) :
    remainingUnrollStart schedule (committedAfter schedule applied) confirmedTimestamp = applied ↔
      Telling schedule applied confirmedTimestamp := by
  have hle := h.applied_le happlied hactive
  cases hdue : (dueRows schedule confirmedTimestamp).length with
  | zero =>
      have hnil := List.length_eq_zero_iff.1 hdue
      obtain rfl : applied = 0 := by omega
      refine iff_of_true (h.remaining_of_none_due hnil) ?_
      unfold Telling
      rw [if_pos rfl, hnil]
      exact nofun
  | succ due =>
      have hlt : due < schedule.length := by
        have hlength := length_dueRows_le schedule confirmedTimestamp
        omega
      unfold Telling
      cases applied with
      | zero =>
          have hlaunch : committedAfter schedule 0 = launchBasePrice := rfl
          rw [if_pos rfl, getLast?_dueRows hdue hlt, hlaunch, h.remaining_launch_iff hdue hlt]
          simp
      | succ applied =>
          rw [if_neg (Nat.succ_ne_zero applied), hdue, committedAfter_succ (by omega),
            h.remaining_applied_iff hdue hlt (by omega), Nat.succ_lt_succ_iff]

end

/-! ## The rows that are listed -/

/-- The request lists the rows from the first one that remains. -/
theorem unrolls_lookupPrice {now : ℕ} {state : PriceApiState} {launcherId : Option String}
    {response : PriceResponse} (h : lookupPrice now state launcherId = .ok response) :
    response.unrolls = state.priceSchedule.drop (remainingUnrollStart state.priceSchedule
      response.currentBasePrice response.confirmedTimestamp) := by
  unfold lookupPrice at h
  cases hregistry : selectRegistry state.toListenerApiState launcherId with
  | error e => rw [hregistry] at h; cases h
  | ok registry =>
      cases hfresh : requireFresh state.toListenerApiState now with
      | error e => rw [hregistry, hfresh] at h; cases h
      | ok fresh =>
          rw [hregistry, hfresh] at h
          obtain rfl := Except.ok.inj h
          dsimp only
          split
          · rfl
          · next hlong => rw [List.drop_of_length_le (not_le.1 hlong).le]

/-- The request lists exactly the rows that have not been applied. -/
def ListsRemaining (schedule : List ScheduleGeneration) (applied confirmedTimestamp : ℕ) : Prop :=
  ∀ (now : ℕ) (state : PriceApiState) (launcherId : Option String) (response : PriceResponse),
    state.priceSchedule = schedule → lookupPrice now state launcherId = .ok response →
    response.confirmedTimestamp = confirmedTimestamp →
    response.currentBasePrice = committedAfter schedule applied →
    response.unrolls = schedule.drop applied

/-- **When the rows that remain are the right ones**: the price tells which rows have been
applied. -/
theorem remaining_iff {schedule : List ScheduleGeneration} (h : WellFormed schedule)
    {applied confirmedTimestamp : ℕ} (happlied : applied ≤ schedule.length)
    (hactive : ∀ row ∈ (schedule.take applied).getLast?,
      row.activationTimestamp ≤ confirmedTimestamp) :
    (remainingUnrollStart schedule (committedAfter schedule applied) confirmedTimestamp = applied ∧
      ListsRemaining schedule applied confirmedTimestamp) ↔
    Telling schedule applied confirmedTimestamp := by
  rw [← h.remaining_eq_iff happlied hactive]
  refine ⟨And.left, fun hstart => ⟨hstart, ?_⟩⟩
  intro now state launcherId response hschedule hresponse htimestamp hprice
  rw [unrolls_lookupPrice hresponse, hschedule, htimestamp, hprice, hstart]

theorem wellFormed_testnet11 : WellFormed testnet11Generations where
  rising := by decide
  nodup := by decide

/-- The theorem after four rows of the test network, at the time of the fourth. -/
theorem remaining_iff_four :
    (remainingUnrollStart testnet11Generations (committedAfter testnet11Generations 4) 1786935600
      = 4 ∧ ListsRemaining testnet11Generations 4 1786935600) ↔
    Telling testnet11Generations 4 1786935600 :=
  remaining_iff wellFormed_testnet11 (by decide) (by decide)

/-- The listener of a registry at its launch price, with the rows of the test network. -/
def launched (now : ℕ) : PriceApiState where
  toListenerApiState := DirectoryExample.state [] now
  committedBasePrice _ := some launchBasePrice
  priceSchedule := testnet11Generations

/-- **The launch price and the last row**: when all rows of the test network are due and none
has been applied, none is listed. -/
theorem remaining_fails : WellFormed testnet11Generations ∧
    (dueRows testnet11Generations 1787022000).length = 9 ∧
    remainingUnrollStart testnet11Generations (committedAfter testnet11Generations 0) 1787022000
      = 9 ∧
    (∃ response, lookupPrice 1787022000 (launched 1787022000) none = .ok response ∧
      response.currentBasePrice = committedAfter testnet11Generations 0 ∧
      response.unrolls = []) ∧
    ¬ ListsRemaining testnet11Generations 0 1787022000 := by
  have hresponse : lookupPrice 1787022000 (launched 1787022000) none
      = .ok ⟨100, 1787022000, launchBasePrice, []⟩ := rfl
  refine ⟨wellFormed_testnet11, by decide, by decide, ⟨_, hresponse, rfl, rfl⟩, fun hlists => ?_⟩
  have hrows := hlists _ _ _ _ rfl hresponse rfl rfl
  exact absurd hrows (by decide)

end SlotMachine.Listener
