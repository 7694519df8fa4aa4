import SlotMachine.Catalog.Registry
import SlotMachine.Chain.Encoding
import SlotMachine.Xchandles.Registry

/-!
# What the actions of a registry promise

The singleton of a registry is safe in the hands of its actions as long as none
of them creates a coin with an amount in it, and none but `delegated_state`
touches the state.  A `Contract` is a set of actions together with these
promises.

* `Contract` — the actions and the promises.
* `Xchandles.contract`, `Catalog.contract` — **both registries keep them**.
* `Contract.stateAfter` — the state that a list of calls leads to.
-/

namespace SlotMachine

/-- The actions of a registry, with the one that replaces the state.  `M` runs
the programs that come with solutions. -/
structure Contract (M : Machine) where
  Action : Type
  decEq : DecidableEq Action
  run : Actions Action
  delegated : Action
  singletonModHash : Bytes
  otherSingletonStructHash : Bytes
  /-- One action replaces the state, when the other singleton says so. -/
  run_delegated : run delegated = delegatedState M singletonModHash otherSingletonStructHash
  /-- Every other action returns the truth it was given. -/
  truth_eq : ∀ {a : Action} {truth solution truth' : Clvm} {cs : List Condition},
    a ≠ delegated → run a truth solution = some (truth', cs) → truth' = truth
  /-- The coins that the actions create are of amount zero. -/
  payless : ∀ {a : Action} {truth solution truth' : Clvm} {cs : List Condition},
    run a truth solution = some (truth', cs) → ∀ c ∈ cs, c.Payless

instance {M : Machine} (R : Contract M) : DecidableEq R.Action := R.decEq

namespace Contract

variable {M : Machine} (R : Contract M)

/-- The state after a call: the first half of the solution of `delegated_state`. -/
def stateStep (state : Clvm) (call : Call R.Action) : Clvm :=
  if call.action = R.delegated then
    match call.solution with
    | .pair newState _ => newState
    | .atom _ => state
  else state

/-- The state after some calls: the new state of the last `delegated_state`
among them, or the state before if there is none. -/
def stateAfter (state : Clvm) (calls : List (Call R.Action)) : Clvm :=
  calls.foldl R.stateStep state

@[simp] theorem stateAfter_nil (state : Clvm) : R.stateAfter state [] = state := rfl

@[simp] theorem stateAfter_cons (state : Clvm) (call : Call R.Action)
    (calls : List (Call R.Action)) :
    R.stateAfter state (call :: calls) = R.stateAfter (R.stateStep state call) calls := rfl

theorem stateAfter_append (state : Clvm) (calls calls' : List (Call R.Action)) :
    R.stateAfter state (calls ++ calls') = R.stateAfter (R.stateAfter state calls) calls' :=
  List.foldl_append

/-- **An action takes the state to the next one**, whatever it does to the
ephemeral state. -/
theorem exists_truth {a : R.Action} {ephemeral state solution truth' : Clvm} {cs : List Condition}
    (h : R.run a (.pair ephemeral state) solution = some (truth', cs)) :
    ∃ ephemeral', truth' = .pair ephemeral' (R.stateStep state ⟨a, solution⟩) := by
  unfold stateStep
  by_cases ha : a = R.delegated
  · rw [if_pos ha]
    rw [ha, R.run_delegated] at h
    obtain ⟨e, s, newState, inner, d, sender, ht, hs, -, -, hout⟩ := delegatedState_eq_some.1 h
    obtain ⟨rfl, -⟩ := Prod.mk.inj hout
    rw [hs]
    exact ⟨e, rfl⟩
  · rw [if_neg ha]
    exact ⟨ephemeral, R.truth_eq ha h⟩

end Contract

/-! ## The two registries -/

section Payless

variable {l : List Condition}

theorem payless_nil : ∀ c ∈ ([] : List Condition), c.Payless :=
  fun _ h => absurd h List.not_mem_nil

theorem payless_cons {c : Condition} (hc : c.Payless) (h : ∀ d ∈ l, d.Payless) :
    ∀ d ∈ c :: l, d.Payless := by
  intro d hd
  rcases List.mem_cons.1 hd with rfl | hd
  · exact hc
  · exact h d hd

theorem payless_append {l' : List Condition} (h : ∀ d ∈ l, d.Payless) (h' : ∀ d ∈ l', d.Payless) :
    ∀ d ∈ l ++ l', d.Payless := by
  intro d hd
  rcases List.mem_append.1 hd with hd | hd
  · exact h d hd
  · exact h' d hd

end Payless

namespace Xchandles

variable {M : Machine} {K : Constants}

theorem Explains.payless {action : Action} {truth solution : Clvm} {cs : List Condition}
    {f : Footprint} (h : Explains M K truth solution action cs f) : ∀ c ∈ cs, c.Payless := by
  cases h with
  | register r =>
      unfold RegisterRun.conditions registerConditions
      refine payless_append ?_ ?_
      · simp [Condition.Payless, spendCoin, createHandleCoin]
      · split
        · exact payless_nil
        · exact payless_cons trivial payless_nil
  | expire r =>
      unfold ExpireRun.conditions expireConditions
      refine payless_append ?_ ?_
      · rcases expireResolvedApproval_eq_some r.approves with hnone | ⟨resolved, -, hone⟩
        · rw [hnone]
          exact payless_nil
        · rw [hone]
          exact payless_cons trivial payless_nil
      · simp [Condition.Payless, spendCoin, createHandleCoin]
  | extend r =>
      simp [ExtendRun.conditions, extendConditions, Condition.Payless, spendCoin, createHandleCoin]
  | oracle r => simp [OracleRun.conditions, Condition.Payless, spendCoin, createHandleCoin]
  | initiateUpdate r => simp [InitiateRun.conditions, Condition.Payless, spendCoin, createHandleCoin]
  | executeUpdate r => simp [ExecuteRun.conditions, Condition.Payless, spendCoin, createHandleCoin]
  | refund r =>
      unfold RefundRun.conditions refundConditions
      refine payless_cons trivial (payless_cons trivial ?_)
      have hlast := r.last_eq
      unfold lastConditions at hlast
      split at hlast
      · obtain ⟨c, a, e, d, spent, created, -, -, -, hcs⟩ := keepSlot_eq_some.1 hlast
        rw [hcs]
        simp [Condition.Payless, spendCoin, createHandleCoin]
      · rw [← Option.some.inj hlast]
        exact payless_nil
  | delegatedState d sender => exact payless_cons trivial payless_nil

/-- The actions of XCHandles keep the promises. -/
def contract (M : Machine) (K : Constants) : Contract M where
  Action := Action
  decEq := inferInstance
  run := Action.run M K
  delegated := .delegatedState
  singletonModHash := K.singletonModHash
  otherSingletonStructHash := K.otherSingletonStructHash
  run_delegated := rfl
  truth_eq := by
    intro a truth solution truth' cs ha h
    cases a with
    | register => obtain ⟨r, hr⟩ := register_eq_some.1 h; exact (Prod.mk.inj hr).1
    | expire => obtain ⟨r, hr⟩ := expire_eq_some.1 h; exact (Prod.mk.inj hr).1
    | extend => obtain ⟨r, hr⟩ := extend_run h; exact (Prod.mk.inj hr).1
    | oracle => obtain ⟨r, hr⟩ := oracle_eq_some.1 h; exact (Prod.mk.inj hr).1
    | initiateUpdate => obtain ⟨r, hr⟩ := initiateUpdate_eq_some.1 h; exact (Prod.mk.inj hr).1
    | executeUpdate => obtain ⟨r, hr⟩ := executeUpdate_eq_some.1 h; exact (Prod.mk.inj hr).1
    | refund => obtain ⟨r, hr⟩ := refund_eq_some.1 h; exact (Prod.mk.inj hr).1
    | delegatedState => exact absurd rfl ha
  payless := by
    intro a truth solution truth' cs h
    obtain ⟨f, hf⟩ := exists_explains h
    exact hf.payless

end Xchandles

namespace Catalog

variable {M : Machine} {K : Constants}

theorem Explains.payless {action : Action} {truth solution : Clvm} {cs : List Condition}
    {f : Footprint} (h : Explains M K truth solution action cs f) : ∀ c ∈ cs, c.Payless := by
  cases h with
  | register r =>
      simp [RegisterRun.conditions, registerConditions, Condition.Payless, spendCoin,
        createSlotCoin]
  | refund r =>
      unfold RefundRun.conditions refundConditions
      refine payless_append ?_ (payless_cons trivial (payless_cons trivial payless_nil))
      have hslot := r.slot_eq
      unfold slotConditions at hslot
      split at hslot
      · obtain ⟨n, c, spent, created, -, -, -, hcs⟩ := keepSlot_eq_some.1 hslot
        rw [hcs]
        simp [Condition.Payless, spendCoin, createSlotCoin]
      · rw [← Option.some.inj hslot]
        exact payless_nil
  | delegatedState d sender => exact payless_cons trivial payless_nil

/-- The actions of CATalog keep the promises. -/
def contract (M : Machine) (K : Constants) : Contract M where
  Action := Action
  decEq := inferInstance
  run := Action.run M K
  delegated := .delegatedState
  singletonModHash := K.singletonModHash
  otherSingletonStructHash := K.otherSingletonStructHash
  run_delegated := rfl
  truth_eq := by
    intro a truth solution truth' cs ha h
    cases a with
    | register => obtain ⟨r, hr⟩ := register_eq_some.1 h; exact (Prod.mk.inj hr).1
    | refund => obtain ⟨r, hr⟩ := refund_eq_some.1 h; exact (Prod.mk.inj hr).1
    | delegatedState => exact absurd rfl ha
  payless := by
    intro a truth solution truth' cs h
    obtain ⟨f, hf⟩ := exists_explains h
    exact hf.payless

end Catalog

end SlotMachine
