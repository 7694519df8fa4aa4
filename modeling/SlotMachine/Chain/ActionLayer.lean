import SlotMachine.Chain.Condition
import SlotMachine.Ledger.Settlement

/-!
# The action layer and its blocks

A registry is a singleton with a state that runs any number of actions in each
of its spends (`action.rue`), and any number of spends may be in one block.  The
state passes from action to action and from spend to spend, so the actions of a
block do have an order.  Its slots do not: the block says which slots are spent
and which are created, and all of it is checked as a whole.

* `runActions`, `spend`, `spends` — one spend and all spends of a block.
* `BlockStep` — a block takes the registry from one state to the next.
* `Run` — a finite history of blocks; `Run.exists_block` finds the registry
  before and after any of them.
* `Accepts` — a single action that a registry can take on its own.

The choice of an action from the Merkle tree of puzzles is not part of the
model: `A` is the type of the actions in the tree.
-/

namespace SlotMachine

open Settlement

/-- What each action returns for a state and a solution. -/
abbrev Actions (A : Type) := A → Clvm → Clvm → Option (Clvm × List Condition)

/-- An action with its solution. -/
structure Call (A : Type) where
  action : A
  solution : Clvm

/-- An action that was run: the state before it and after it, each with the
ephemeral state, and its conditions. -/
structure Step (A : Type) where
  call : Call A
  truth : Clvm
  truth' : Clvm
  conditions : List Condition

/-- The slots the step spends and creates. -/
def Step.effect {A : Type} (s : Step A) : Effect Bytes :=
  ⟨slotSpends s.conditions, zeroCoins s.conditions⟩

variable {A : Type} (run : Actions A)

/-- `run_actions`: the state passes from one action to the next. -/
def runActions : Clvm → List (Call A) → Option (Clvm × List (Step A))
  | truth, [] => some (truth, [])
  | truth, call :: calls => do
      let (truth', conditions) ← run call.action truth call.solution
      let (last, steps) ← runActions truth' calls
      return (last, ⟨call, truth, truth', conditions⟩ :: steps)

/-- One spend of the registry.  It has to run an action; the ephemeral state is
nil at first, and the finalizer keeps the rest of what the last action returns. -/
def spend (state : Clvm) (calls : List (Call A)) : Option (Clvm × List (Step A)) := do
  assertThat (!calls.isEmpty)
  let (truth, steps) ← runActions run (.pair .nil state) calls
  let state' ← truth.rest
  return (state', steps)

/-- All spends of the registry in one block. -/
def spends : Clvm → List (List (Call A)) → Option (Clvm × List (Step A))
  | state, [] => some (state, [])
  | state, calls :: rest => do
      let (state', steps) ← spend run state calls
      let (last, steps') ← spends state' rest
      return (last, steps ++ steps')

/-- A registry: its state, and the coins of amount zero it created that are not
spent, by puzzle hash. -/
structure Registry where
  state : Clvm
  live : Multiset Bytes

/-- A block: what conditions are checked against, and the spends of the registry. -/
structure Block (A : Type) where
  info : BlockInfo
  spends : List (List (Call A))

/-- A block takes the registry from `r` to `r'`: its actions run, the slots they
spend and create settle, and every condition is fulfilled. -/
structure BlockStep (r : Registry) (b : Block A) (steps : List (Step A)) (r' : Registry) :
    Prop where
  runs : SlotMachine.spends run r.state b.spends = some (r'.state, steps)
  settles : Settles r.live (Effect.total (steps.map Step.effect)) r'.live
  holds : ∀ s ∈ steps, ∀ c ∈ s.conditions, c.Holds b.info

/-- A block of a history, with the actions that were run in it. -/
structure Event (A : Type) where
  block : Block A
  steps : List (Step A)

/-- A history of blocks. -/
inductive Run (r₀ : Registry) : List (Event A) → Registry → Prop where
  | start : Run r₀ [] r₀
  | next {past : List (Event A)} {r r' : Registry} {b : Block A} {steps : List (Step A)} :
      Run r₀ past r → BlockStep run r b steps r' → Run r₀ (past ++ [⟨b, steps⟩]) r'

/-- A registry can take a call on its own: it runs, its slots are live, and its
conditions are fulfilled. -/
structure Accepts (r : Registry) (info : BlockInfo) (call : Call A) (cs : List Condition) :
    Prop where
  runs : ∃ truth', run call.action (.pair .nil r.state) call.solution = some (truth', cs) ∧
    ∃ state', truth'.rest = some state'
  live : slotSpends cs ≤ r.live
  holds : ∀ c ∈ cs, c.Holds info

/-! ## The actions of a block -/

variable {run}

theorem runActions_mem {truth last : Clvm} {calls : List (Call A)} {steps : List (Step A)}
    (h : runActions run truth calls = some (last, steps)) :
    ∀ s ∈ steps, run s.call.action s.truth s.call.solution = some (s.truth', s.conditions) := by
  induction calls generalizing truth steps with
  | nil =>
      cases h
      exact fun s hs => absurd hs List.not_mem_nil
  | cons call calls ih =>
      obtain ⟨⟨truth', cs⟩, hrun, h1⟩ := bind_elim h
      obtain ⟨⟨last', steps'⟩, hrest, h2⟩ := bind_elim h1
      cases h2
      intro s hs
      rcases List.mem_cons.1 hs with rfl | hs
      · exact hrun
      · exact ih hrest s hs

theorem spend_mem {state state' : Clvm} {calls : List (Call A)} {steps : List (Step A)}
    (h : spend run state calls = some (state', steps)) :
    ∀ s ∈ steps, run s.call.action s.truth s.call.solution = some (s.truth', s.conditions) := by
  obtain ⟨_, -, h1⟩ := bind_elim h
  obtain ⟨⟨truth, steps'⟩, hrun, h2⟩ := bind_elim h1
  obtain ⟨state'', -, h3⟩ := bind_elim h2
  cases h3
  exact runActions_mem hrun

theorem spends_mem {state last : Clvm} {b : List (List (Call A))} {steps : List (Step A)}
    (h : spends run state b = some (last, steps)) :
    ∀ s ∈ steps, run s.call.action s.truth s.call.solution = some (s.truth', s.conditions) := by
  induction b generalizing state steps with
  | nil =>
      cases h
      exact fun s hs => absurd hs List.not_mem_nil
  | cons calls rest ih =>
      obtain ⟨⟨state', steps'⟩, hspend, h1⟩ := bind_elim h
      obtain ⟨⟨last', steps''⟩, hrest, h2⟩ := bind_elim h1
      cases h2
      intro s hs
      rcases List.mem_append.1 hs with hs | hs
      · exact spend_mem hspend s hs
      · exact ih hrest s hs

/-- Every step of a block is a run of its action. -/
theorem BlockStep.run_eq {r r' : Registry} {b : Block A} {steps : List (Step A)}
    (h : BlockStep run r b steps r') {s : Step A} (hs : s ∈ steps) :
    run s.call.action s.truth s.call.solution = some (s.truth', s.conditions) :=
  spends_mem h.runs s hs

/-- The coins of amount zero that are live before a block or created in it. -/
def liveIn (r : Registry) (e : Event A) : Multiset Bytes :=
  r.live + (Effect.total (e.steps.map Step.effect)).created

/-- Whatever a step spends is live before the block or created in it. -/
theorem BlockStep.mem_liveIn {r r' : Registry} {e : Event A}
    (h : BlockStep run r e.block e.steps r') {s : Step A} (hs : s ∈ e.steps) {ph : Bytes}
    (hph : ph ∈ slotSpends s.conditions) : ph ∈ liveIn r e := by
  have hconsumed : ph ∈ (Effect.total (e.steps.map Step.effect)).consumed :=
    Effect.mem_consumed_total.2 ⟨s.effect, List.mem_map_of_mem hs, hph⟩
  rw [liveIn, ← h.settles]
  exact Multiset.mem_add.2 (Or.inr hconsumed)

/-! ## Histories -/

/-- The registry before and after any block of a history. -/
theorem Run.exists_block {r₀ r : Registry} {events : List (Event A)} (h : Run run r₀ events r)
    {past future : List (Event A)} {e : Event A} (he : events = past ++ e :: future) :
    ∃ r₁ r₂, Run run r₀ past r₁ ∧ BlockStep run r₁ e.block e.steps r₂ := by
  induction h generalizing future with
  | start => simp at he
  | @next past' r r' b steps hrun hstep ih =>
      rcases List.eq_nil_or_concat future with rfl | ⟨future', last, rfl⟩
      · obtain ⟨rfl, hlast⟩ := List.append_inj' he rfl
        obtain rfl := (List.cons.inj hlast).1
        exact ⟨r, r', hrun, hstep⟩
      · rw [List.concat_eq_append, ← List.cons_append, ← List.append_assoc] at he
        exact ih (List.append_inj' he rfl).1

/-- One call as a block of its own. -/
theorem blockStep_singleton {r : Registry} {info : BlockInfo} {call : Call A}
    {truth' state' : Clvm} {cs : List Condition}
    (hrun : run call.action (.pair .nil r.state) call.solution = some (truth', cs))
    (hstate : truth'.rest = some state') (hlive : slotSpends cs ≤ r.live)
    (hholds : ∀ c ∈ cs, c.Holds info) :
    BlockStep run r ⟨info, [[call]]⟩ [⟨call, .pair .nil r.state, truth', cs⟩]
      ⟨state', r.live - slotSpends cs + zeroCoins cs⟩ where
  runs := by simp [spends, spend, runActions, hrun, hstate, assertThat]
  settles := by
    simp only [List.map_cons, List.map_nil, Settles, Effect.consumed_total_cons,
      Effect.created_total_cons, Effect.total_nil, Effect.none, Step.effect, add_zero]
    rw [add_right_comm, Multiset.sub_add_cancel hlive]
  holds := by
    intro s hs c hc
    rw [List.mem_singleton.1 hs] at hc
    exact hholds c hc

end SlotMachine
