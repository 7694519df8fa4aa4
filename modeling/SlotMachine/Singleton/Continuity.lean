import SlotMachine.Singleton.Action
import SlotMachine.Singleton.Contract
import SlotMachine.Singleton.Finalizer

/-!
# The registry goes on

A registry is an action layer with the default finalizer over the tree of its
own actions.  Whatever is put into its spends, each of them creates one coin
that carries the singleton on: the same layer, with the state that its actions
lead to.

* `Layer.Runs` — the programs of a layer are those of a contract and the
  finalizer.
* `exists_steps` — **a spend of the action layer is a spend of the registry**:
  `ActionLayer.main` refines `spend`.
* `History` — spends of the singleton, each one of the coin before it.
* `Orderly` — what is promised for a spend.
* `registry_continuity` — **in every history of either registry every spend is
  orderly, and the next one will be**.
-/

namespace SlotMachine

/-- The parts of a registry's inner puzzle that stay: its finalizer, with what is
curried into it, and the root of its actions. -/
structure Layer where
  constants : Finalizer.Curried
  finalizer : Clvm
  merkleRoot : Bytes

namespace Layer

variable (L : Layer)

/-- What is curried into the action layer when the state is `state`. -/
def curried (state : Clvm) : ActionLayer.Curried := ⟨L.finalizer, .atom L.merkleRoot, state⟩

/-- The puzzle hash of the action layer with this finalizer, root and state. -/
def puzzleHash (H : HashOracle) (state : Clvm) : Option Bytes := do
  let finalizerHash ← H.treeHash L.finalizer
  Finalizer.layerPuzzleHash H L.constants.actionLayerModHash finalizerHash (.atom L.merkleRoot)
    state

/-- A layer determines its state. -/
theorem puzzleHash_inj {L : Layer} {H : HashOracle} (hH : H.CollisionFree) {state state' : Clvm}
    {d : Bytes} (h : L.puzzleHash H state = some d) (h' : L.puzzleHash H state' = some d) :
    state = state' := by
  obtain ⟨f, -, h1⟩ := bind_elim h
  obtain ⟨f', -, h1'⟩ := bind_elim h'
  exact (Finalizer.layerPuzzleHash_inj hH h1 h1').2.2.2

/-- The layer runs a contract: the leaves of its tree are the programs of the
actions, which return what the actions do if they return at all, and its
finalizer is the default one. -/
structure Runs (M : Machine) {M₀ : Machine} (R : Contract M₀) (program : R.Action → Clvm)
    (tree : Merkle.Tree Bytes) : Prop where
  root : tree.root M.hash.merkle = some L.merkleRoot
  leaves : ∀ ph ∈ tree.leaves, ∃ a, M.hash.treeHash (program a) = some ph
  actions : ∀ {a truth solution out}, M.eval (program a) (.pair truth solution) = some out →
    (R.run a truth solution).map (fun r => .pair r.1 (encode r.2)) = some out
  finalizes : ∀ {solution out}, M.eval L.finalizer solution = some out →
    Finalizer.main M.hash L.constants solution = some out
  finalizer_hash : M.hash.treeHash L.finalizer = Finalizer.puzzleHash M.hash L.constants

end Layer

/-! ## A spend of the layer is a spend of the registry -/

section

variable {M M₀ : Machine} {R : Contract M₀}

/-- The calls of a spend leave behind them the state of the contract, and each
of them finds the state of the calls before it. -/
theorem Contract.runActions_eq_some {ephemeral state last : Clvm} {calls : List (Call R.Action)}
    {steps : List (Step R.Action)}
    (h : runActions R.run (.pair ephemeral state) calls = some (last, steps)) :
    steps.map Step.call = calls ∧ (∃ ephemeral', last = .pair ephemeral' (R.stateAfter state calls)) ∧
      ∀ before step after, steps = before ++ step :: after →
        ∃ ephemeral', step.truth = .pair ephemeral' (R.stateAfter state (before.map Step.call)) := by
  induction calls generalizing ephemeral state steps with
  | nil =>
      cases h
      refine ⟨rfl, ⟨ephemeral, rfl⟩, ?_⟩
      intro before step after hsplit
      exact absurd hsplit (by simp)
  | cons call calls ih =>
      obtain ⟨⟨truth', cs⟩, hrun, h1⟩ := bind_elim h
      obtain ⟨⟨last', steps'⟩, hrest, h2⟩ := bind_elim h1
      cases h2
      obtain ⟨ephemeral', htruth⟩ := R.exists_truth hrun
      rw [htruth] at hrest
      obtain ⟨hcalls, hlast, hsteps⟩ := ih hrest
      refine ⟨by rw [List.map_cons, hcalls], hlast, ?_⟩
      intro before step after hsplit
      cases before with
      | nil =>
          obtain ⟨rfl, -⟩ := List.cons.inj hsplit
          exact ⟨ephemeral, rfl⟩
      | cons step' before =>
          obtain ⟨rfl, htail⟩ := List.cons.inj hsplit
          exact hsteps before step after htail

/-- **A run of programs of the tree is a run of actions**, with the same
solutions and the same conditions. -/
theorem exists_steps {program : R.Action → Clvm}
    (hactions : ∀ {a truth solution out}, M.eval (program a) (.pair truth solution) = some out →
      (R.run a truth solution).map (fun r => .pair r.1 (encode r.2)) = some out)
    {truth solutions last : Clvm} {programs lists : List Clvm}
    (hprograms : ∀ p ∈ programs, ∃ a, p = program a)
    (h : ActionLayer.Executes M truth programs solutions lists last) :
    ∃ calls steps, programs = calls.map (fun c => program c.action) ∧
      (∃ rest, solutions = (calls.map Call.solution).foldr .pair rest) ∧
      lists = steps.map (fun s => encode s.conditions) ∧
      runActions R.run truth calls = some (last, steps) := by
  induction h with
  | done truth solutions => exact ⟨[], [], rfl, ⟨solutions, rfl⟩, rfl, rfl⟩
  | @step truth truth' p solution solutions conditions last programs lists heval _ ih =>
      obtain ⟨a, ha⟩ := hprograms p List.mem_cons_self
      obtain ⟨calls, steps, hcalls, ⟨rest, hsolutions⟩, hlists, hrun⟩ :=
        ih fun p' hp' => hprograms p' (List.mem_cons_of_mem _ hp')
      rw [ha] at heval
      obtain ⟨⟨t, cs⟩, hcall, hpair⟩ := Option.map_eq_some_iff.1 (hactions heval)
      obtain ⟨rfl, rfl⟩ := Clvm.pair.inj hpair
      refine ⟨⟨a, solution⟩ :: calls, ⟨⟨a, solution⟩, truth, t, cs⟩ :: steps, ?_, ⟨rest, ?_⟩, ?_,
        bind_intro hcall (bind_intro hrun rfl)⟩
      · rw [List.map_cons, hcalls, ha]
      · rw [List.map_cons, List.foldr_cons, hsolutions]
      · rw [List.map_cons, hlists]

end

/-! ## Histories -/

/-- A spend of the singleton: the state of the coin, what it was spent with, what
its inner puzzle returned, and the state of the next coin. -/
structure Spent where
  before : Clvm
  solution : ActionLayer.Solution
  out : Clvm
  after : Clvm

/-- The singleton goes on as the layer with this state: a coin of odd or negative
amount is created for it. -/
def Layer.Recreates (L : Layer) (H : HashOracle) (out state : Clvm) : Prop :=
  ∃ conditions c ph amount, out = .ofList conditions ∧ c ∈ conditions ∧
    createdCoin? c = some (.atom ph, amount) ∧ singularAmount amount = true ∧
    L.puzzleHash H state = some ph

/-- A history of the singleton from its first state on. -/
inductive History (M : Machine) (L : Layer) (state₀ : Clvm) : List Spent → Clvm → Prop where
  | launch : History M L state₀ [] state₀
  | spend {past : List Spent} {state out state' : Clvm} {s : ActionLayer.Solution} :
      History M L state₀ past state → ActionLayer.main M (L.curried state) s = some out →
      L.Recreates M.hash out state' →
      History M L state₀ (past ++ [⟨state, s, out, state'⟩]) state'

/-- What is promised for a spend. -/
structure Orderly (M : Machine) {M₀ : Machine} (R : Contract M₀) (program : R.Action → Clvm)
    (L : Layer) (sp : Spent) (calls : List (Call R.Action)) (steps : List (Step R.Action)) :
    Prop where
  /-- It runs the calls, at least one of them, with the solutions in order. -/
  spends : SlotMachine.spend R.run sp.before calls = some (sp.after, steps)
  solutions : ∃ rest, sp.solution.solutions = (calls.map Call.solution).foldr .pair rest
  executes : ∃ ephemeral, ActionLayer.Executes M (.pair .nil sp.before)
    (calls.map fun c => program c.action) sp.solution.solutions
    (steps.map fun s => encode s.conditions) (.pair ephemeral sp.after)
  /-- One coin of odd or negative amount is created: the layer with the next
  state, and amount one.  The conditions of the actions are all there. -/
  output : ∃ inner conditions, L.puzzleHash M.hash sp.after = some inner ∧
    sp.out = .ofList conditions ∧
    conditions.filter singular = [Finalizer.recreation L.constants inner] ∧
    ∀ step ∈ steps, ∀ c ∈ step.conditions, c.toClvm ∈ conditions
  /-- The next state is the one the last `delegated_state` brought, if there was one. -/
  state_eq : sp.after = R.stateAfter sp.before calls
  /-- Every action sees the state that the actions before it left. -/
  sees : ∀ before step after, steps = before ++ step :: after →
    ∃ ephemeral, step.truth = .pair ephemeral (R.stateAfter sp.before (before.map Step.call))
  /-- The first one sees no ephemeral state. -/
  fresh : ∀ step after, steps = step :: after → step.truth = .pair .nil sp.before
  /-- A `delegated_state` needs a message from the controller singleton. -/
  authorized : ∀ step ∈ steps, step.call.action = R.delegated →
    ∃ newState inner stateHash sender, step.call.solution = .pair newState inner ∧
      M.hash.treeHash newState = some stateHash ∧
      M.hash.curryTreeHash (.atom R.singletonModHash) [.atom R.otherSingletonStructHash, inner]
        = some sender ∧
      step.conditions = [.receiveMessage puzzlePuzzle (.tagged 's' stateHash) [.atom sender]]

section

variable {M M₀ : Machine} {R : Contract M₀} {program : R.Action → Clvm} {L : Layer}
  {tree : Merkle.Tree Bytes}

/-- **A spend of the layer.**  It runs actions of the contract only, and outputs
the recreation of the layer and the conditions of the actions. -/
theorem exists_calls (hH : M.hash.CollisionFree) (hL : L.Runs M R program tree) {state out : Clvm}
    {s : ActionLayer.Solution} (h : ActionLayer.main M (L.curried state) s = some out) :
    ∃ calls steps ephemeral inner, calls ≠ [] ∧
      (∃ rest, s.solutions = (calls.map Call.solution).foldr .pair rest) ∧
      ActionLayer.Executes M (.pair .nil state) (calls.map fun c => program c.action) s.solutions
        (steps.map fun s => encode s.conditions) (.pair ephemeral (R.stateAfter state calls)) ∧
      runActions R.run (.pair .nil state) calls
        = some (.pair ephemeral (R.stateAfter state calls), steps) ∧
      L.puzzleHash M.hash (R.stateAfter state calls) = some inner ∧
      out = .ofList (Finalizer.recreation L.constants inner ::
        ((steps.map Step.conditions).reverse.flatten).map Condition.toClvm) := by
  obtain ⟨choices, programs, lists, last, hselected⟩ := ActionLayer.exists_selected h
  have hprograms : ∀ p ∈ programs, ∃ a, p = program a := by
    intro p hp
    obtain ⟨ph, hph, hhash⟩ := hselected.committed hH hL.root rfl p hp
    obtain ⟨a, ha⟩ := hL.leaves ph hph
    exact ⟨a, HashOracle.treeHash_inj hH hhash ha⟩
  obtain ⟨calls, steps, hcalls, hsolutions, hlists, hrun⟩ :=
    exists_steps hL.actions hprograms hselected.executes
  obtain ⟨hmap, ⟨ephemeral, hlast⟩, -⟩ := Contract.runActions_eq_some hrun
  have hnonempty : calls ≠ [] := by
    rintro rfl
    have hlength := hselected.selected.length_eq
    rw [hcalls, List.length_reverse] at hlength
    exact hselected.nonempty (List.length_eq_zero_iff.1 hlength)
  have hexecutes := hselected.executes
  have hfinal := hselected.finalized
  rw [hcalls, hlists, hlast] at hexecutes
  rw [hlast] at hrun hfinal
  -- the lists of conditions, as the finalizer finds them
  set lists' : List (List Clvm) :=
    (steps.map fun s => s.conditions.map Condition.toClvm).reverse ++ [[]] with hlists'
  have hencoded : lists.reverse ++ [.nil] = lists'.map Clvm.ofList := by
    rw [hlists, hlists', List.map_append, List.map_reverse, List.map_map]
    rfl
  have hflat : lists'.flatten
      = ((steps.map Step.conditions).reverse.flatten).map Condition.toClvm := by
    rw [hlists', List.flatten_append, List.map_flatten, List.map_reverse, List.map_map]
    exact List.append_nil _
  obtain ⟨xs, xss, hcons⟩ : ∃ xs xss, lists' = xs :: xss :=
    List.exists_cons_of_ne_nil (by simp [hlists'])
  rw [hencoded, hcons] at hfinal
  obtain ⟨finalizerHash, inner, hfinalizer, hinner, hout⟩ :=
    Finalizer.main_eq_some.1 (hL.finalizes hfinal)
  rw [← hcons, hflat] at hout
  exact ⟨calls, steps, ephemeral, inner, hnonempty, hsolutions, hexecutes, hrun,
    bind_intro (hL.finalizer_hash.trans hfinalizer) hinner, hout⟩

/-- Of the conditions of a spend one is singular, the recreation. -/
theorem filter_singular_output {steps : List (Step R.Action)} {truth last : Clvm}
    {calls : List (Call R.Action)} (hrun : runActions R.run truth calls = some (last, steps))
    (inner : Bytes) :
    (Finalizer.recreation L.constants inner ::
        ((steps.map Step.conditions).reverse.flatten).map Condition.toClvm).filter singular
      = [Finalizer.recreation L.constants inner] := by
  have hpayless : ∀ c ∈ (steps.map Step.conditions).reverse.flatten, c.Payless := by
    intro c hc
    obtain ⟨cs, hcs, hmem⟩ := List.mem_flatten.1 hc
    obtain ⟨step, hstep, rfl⟩ := List.mem_map.1 (List.mem_reverse.1 hcs)
    exact R.payless (runActions_mem hrun step hstep) c hmem
  have hsingular : singular (Finalizer.recreation L.constants inner) = true := rfl
  rw [List.filter_cons_of_pos hsingular, filter_singular_of_payless hpayless]

/-- The layer that is recreated is unique, and it is there. -/
theorem recreates_iff (hH : M.hash.CollisionFree) {conditions : List Clvm} {out state' : Clvm}
    {inner : Bytes} (hinner : L.puzzleHash M.hash state' = some inner)
    (hout : out = .ofList conditions)
    (hfilter : conditions.filter singular = [Finalizer.recreation L.constants inner])
    (state : Clvm) : L.Recreates M.hash out state ↔ state = state' := by
  constructor
  · rintro ⟨conditions', c, ph, amount, hout', hc, hcreated, hamount, hph⟩
    obtain rfl : conditions = conditions' := Clvm.ofList_injective (hout.symm.trans hout')
    have hmem : c ∈ conditions.filter singular :=
      List.mem_filter.2 ⟨hc, by rw [singular, hcreated]; exact hamount⟩
    rw [hfilter] at hmem
    rw [List.mem_singleton.1 hmem] at hcreated
    obtain ⟨hsame, -⟩ := Prod.mk.inj (Option.some.inj hcreated)
    rw [← Clvm.atom.inj hsame] at hph
    exact Layer.puzzleHash_inj hH hph hinner
  · rintro rfl
    have hmem : Finalizer.recreation L.constants inner ∈ conditions.filter singular := by
      rw [hfilter]
      exact List.mem_singleton_self _
    exact ⟨conditions, _, inner, .atom [1], hout, (List.mem_filter.1 hmem).1, rfl, rfl, hinner⟩

/-- **Every spend of the layer is orderly**, and recreates one layer. -/
theorem exists_orderly (hH : M.hash.CollisionFree) (hM : M₀.hash = M.hash)
    (hL : L.Runs M R program tree) {state out : Clvm} {s : ActionLayer.Solution}
    (h : ActionLayer.main M (L.curried state) s = some out) :
    ∃ calls steps, (∀ state', L.Recreates M.hash out state' ↔ state' = R.stateAfter state calls) ∧
      Orderly M R program L ⟨state, s, out, R.stateAfter state calls⟩ calls steps := by
  obtain ⟨calls, steps, ephemeral, inner, hnonempty, hsolutions, hexecutes, hrun, hinner, hout⟩ :=
    exists_calls hH hL h
  have hfilter := @filter_singular_output _ R L _ _ _ _ hrun inner
  obtain ⟨-, -, hsees⟩ := Contract.runActions_eq_some hrun
  refine ⟨calls, steps, recreates_iff hH hinner hout hfilter, ?_⟩
  constructor
  · have hcalls : assertThat (!calls.isEmpty) = some () :=
      assertThat_eq_some.2 (by simpa using hnonempty)
    exact bind_intro hcalls (bind_intro hrun rfl)
  · exact hsolutions
  · exact ⟨ephemeral, hexecutes⟩
  · refine ⟨inner, _, hinner, hout, hfilter, ?_⟩
    intro step hstep c hc
    refine List.mem_cons_of_mem _ (List.mem_map_of_mem (List.mem_flatten.2 ⟨_, ?_, hc⟩))
    exact List.mem_reverse.2 (List.mem_map_of_mem hstep)
  · rfl
  · exact hsees
  · intro step after hsplit
    cases calls with
    | nil => exact absurd rfl hnonempty
    | cons call calls =>
        obtain ⟨⟨truth', cs⟩, -, h1⟩ := bind_elim hrun
        obtain ⟨⟨last', steps'⟩, -, h2⟩ := bind_elim h1
        obtain ⟨-, hsteps⟩ := Prod.mk.inj (Option.some.inj h2)
        rw [hsplit] at hsteps
        rw [← (List.cons.inj hsteps).1]
  · intro step hstep haction
    have hstepRun := runActions_mem hrun step hstep
    rw [haction, R.run_delegated] at hstepRun
    obtain ⟨e, before, newState, inner', stateHash, sender, -, hsolution, hhash, hsender, hreturn⟩ :=
      delegatedState_eq_some.1 hstepRun
    rw [hM] at hhash hsender
    exact ⟨newState, inner', stateHash, sender, hsolution, hhash, hsender, (Prod.mk.inj hreturn).2⟩

/-- Every spend of a history is orderly, and its state is the one that all calls
in it have led to. -/
theorem History.exists_calls (hH : M.hash.CollisionFree) (hM : M₀.hash = M.hash)
    (hL : L.Runs M R program tree) {state₀ state : Clvm} {spends : List Spent}
    (h : History M L state₀ spends state) :
    ∃ callss, List.Forall₂ (fun sp calls => ∃ steps, Orderly M R program L sp calls steps)
        spends callss ∧ state = R.stateAfter state₀ callss.flatten := by
  induction h with
  | launch => exact ⟨[], List.Forall₂.nil, rfl⟩
  | @spend past state out state' s _ hmain hrecreates ih =>
      obtain ⟨callss, hall, hstate⟩ := ih
      obtain ⟨calls, steps, hunique, horderly⟩ := exists_orderly hH hM hL hmain
      obtain rfl := (hunique state').1 hrecreates
      refine ⟨callss ++ [calls], ?_, ?_⟩
      · exact List.rel_append hall (List.Forall₂.cons ⟨steps, horderly⟩ List.Forall₂.nil)
      · rw [List.flatten_append, R.stateAfter_append, ← hstate]
        simp

end

/-! ## The two registries -/

/-- The registries of the repository. -/
inductive RegistryKind where
  | xchandles (K : Xchandles.Constants)
  | catalog (K : Catalog.Constants)

/-- The actions of a registry. -/
def RegistryKind.contract (M : Machine) : RegistryKind → Contract M
  | xchandles K => Xchandles.contract M K
  | catalog K => Catalog.contract M K

/-- **The registry goes on.**  In every history of either registry, each spend
has run actions of the registry in order, has created one coin of odd or negative
amount, the same layer with amount one, and has changed the state only as the
last `delegated_state` said; and whatever a further spend is, it creates the
layer again. -/
theorem registry_continuity (M : Machine) (hH : M.hash.CollisionFree) {M₀ : Machine}
    (hM : M₀.hash = M.hash) (kind : RegistryKind) {L : Layer}
    {program : (kind.contract M₀).Action → Clvm} {tree : Merkle.Tree Bytes}
    (hL : L.Runs M (kind.contract M₀) program tree) {state₀ state : Clvm} {spends : List Spent}
    (h : History M L state₀ spends state) :
    (∃ callss, List.Forall₂
        (fun sp calls => ∃ steps, Orderly M (kind.contract M₀) program L sp calls steps)
        spends callss ∧
      state = (kind.contract M₀).stateAfter state₀ callss.flatten) ∧
    ∀ s out, ActionLayer.main M (L.curried state) s = some out →
      ∃ calls steps state', (∀ state'', L.Recreates M.hash out state'' ↔ state'' = state') ∧
        Orderly M (kind.contract M₀) program L ⟨state, s, out, state'⟩ calls steps := by
  refine ⟨h.exists_calls hH hM hL, ?_⟩
  intro s out hmain
  obtain ⟨calls, steps, hunique, horderly⟩ := exists_orderly hH hM hL hmain
  exact ⟨calls, steps, _, hunique, horderly⟩

/-! ### A spend of CATalog that replaces the state -/

namespace ContinuityExample

/-- Thirty-two bytes. -/
def filled (b : Byte) : Bytes := List.replicate 32 b

def constants : Catalog.Constants where
  nftPack := ⟨filled 41, filled 42, filled 43, filled 44, filled 45, filled 46, filled 47, [1, 44]⟩
  uniquenessPrelauncher1stCurryHash := filled 50
  precommit1stCurryHash := filled 51
  slot1stCurryHash := filled 52
  singletonModHash := filled 42
  otherSingletonStructHash := filled 53

/-- Programs that stand for the compiled actions and the compiled finalizer. -/
def program : Catalog.Action → Clvm
  | .register => .atom [101]
  | .refund => .atom [102]
  | .delegatedState => .atom [103]

def finalizerMod : Clvm := .atom [104]

def finalizerSelfHash : Bytes := (Skeleton.ofClvm finalizerMod).hash

/-- `(a (q . MOD) (c (q . FINALIZER_SELF_HASH) 1))`. -/
def finalizer : Clvm :=
  .ofList [.atom [2], .pair (.atom [1]) finalizerMod,
    .ofList [.atom [4], .pair (.atom [1]) (.atom finalizerSelfHash), .atom [1]]]

def finalizerConstants : Finalizer.Curried := ⟨filled 60, .atom (filled 61), finalizerSelfHash⟩

def actionHash : Bytes := (Skeleton.ofClvm (program .delegatedState)).hash

def root : Bytes := (Skeleton.atom actionHash).hash

def layer : Layer := ⟨finalizerConstants, finalizer, root⟩

def actionOf : Clvm → Option Catalog.Action
  | .atom [101] => some .register
  | .atom [102] => some .refund
  | .atom [103] => some .delegatedState
  | _ => none

/-- The messages that are hashed in the spend. -/
def hashed : List Skeleton :=
  [.ofClvm (program .delegatedState), .atom actionHash, .ofClvm finalizer,
    .atom finalizerSelfHash, .curry finalizerSelfHash [(Skeleton.atom finalizerSelfHash).hash],
    .ofClvm (.atom [9]), .curry (filled 42) [filled 53, filled 62], .atom root,
    .curry (filled 60) [(Skeleton.ofClvm finalizer).hash, (Skeleton.atom root).hash,
      (Skeleton.ofClvm (.atom [9])).hash]]

def hashes : HashOracle := .ofSkeletons hashed

/-- Runs no program at all: the call of the spend needs none. -/
def inner : Machine := ⟨hashes, fun _ _ => none⟩

/-- Runs the actions and the finalizer as their sources say, and CLVM otherwise. -/
def machine : Machine where
  hash := hashes
  eval p env :=
    if p = finalizer then Finalizer.main hashes finalizerConstants env
    else match actionOf p, env with
      | some a, .pair truth solution =>
          (Catalog.Action.run inner constants a truth solution).map fun r => .pair r.1 (encode r.2)
      | some _, .atom _ => none
      | none, env => Clvm.run hashes (fun _ _ => none) 1 p env

/-- The state becomes `9`, as another singleton with the inner puzzle `62…` says. -/
def solution : ActionLayer.Solution where
  puzzles := program .delegatedState
  selectorsAndProofs := .ofList [.pair (.atom [1]) (.pair .nil .nil)]
  solutions := .ofList [.pair (.atom [9]) (.atom (filled 62))]
  finalizerSolution := .nil

theorem collisionFree : hashes.CollisionFree :=
  HashOracle.ofSkeletons_collisionFree (by decide +kernel)

/-- The finalizer is hashed as a curried program. -/
theorem hash_finalizer : (Skeleton.ofClvm finalizer).hash
    = (Skeleton.curry finalizerSelfHash [(Skeleton.atom finalizerSelfHash).hash]).hash := by
  simp only [finalizer, Clvm.ofList, Clvm.nil, Skeleton.ofClvm, Skeleton.curry, Skeleton.expression,
    Skeleton.environment, Skeleton.hash, finalizerSelfHash]

theorem finalizer_hash :
    hashes.treeHash finalizer = Finalizer.puzzleHash hashes finalizerConstants := by
  have hfinalizer : hashes.treeHash finalizer = some (Skeleton.ofClvm finalizer).hash :=
    HashOracle.treeHash_ofSkeletons (by simp [hashed])
  rw [hfinalizer, hash_finalizer]
  exact (Finalizer.puzzleHash_ofSkeletons (c := finalizerConstants)
    (by simp [hashed, finalizerConstants]) (by simp [hashed, finalizerConstants])).symm

theorem hash_inner : inner.hash = machine.hash := rfl

/-- The machine runs an action as its source says. -/
theorem eval_program (a : Catalog.Action) (truth solution : Clvm) :
    machine.eval (program a) (.pair truth solution)
      = (Catalog.Action.run inner constants a truth solution).map
        fun r => .pair r.1 (encode r.2) := by
  cases a <;> rfl

theorem eval_finalizer (solution : Clvm) :
    machine.eval finalizer solution = Finalizer.main hashes finalizerConstants solution :=
  if_pos rfl

theorem runs : layer.Runs machine ((RegistryKind.catalog constants).contract inner) program
    (.leaf actionHash) where
  root := HashOracle.treeHashAtom_ofSkeletons (by simp [hashed])
  leaves := by
    intro ph hph
    rw [List.mem_singleton.1 hph]
    exact ⟨.delegatedState, HashOracle.treeHash_ofSkeletons (by simp [hashed])⟩
  actions := by
    intro a truth solution out h
    exact (eval_program a truth solution).symm.trans h
  finalizes := by
    intro solution out h
    exact (eval_finalizer solution).symm.trans h
  finalizer_hash := finalizer_hash

/-- The layer with the new state. -/
theorem exists_inner : ∃ d, layer.puzzleHash hashes (.atom [9]) = some d := by
  have hfinalizer : hashes.treeHash finalizer = some (Skeleton.ofClvm finalizer).hash :=
    HashOracle.treeHash_ofSkeletons (by simp [hashed])
  have hroot : Skeleton.atom layer.merkleRoot ∈ hashed := by simp [hashed, layer]
  exact ⟨_, bind_intro hfinalizer
    (Finalizer.layerPuzzleHash_ofSkeletons (m := layer.constants.actionLayerModHash) hroot
      (by simp [hashed]) (by simp [hashed, layer, finalizerConstants]))⟩

theorem validSelector_eq : ActionLayer.validSelector machine (.atom root) solution.puzzles (.atom [1])
    (.pair .nil .nil) [] = some true := by
  have hhash : hashes.treeHash (program .delegatedState) = some actionHash :=
    HashOracle.treeHash_ofSkeletons (by simp [hashed])
  have hroot : hashes.treeHashAtom (.atom actionHash) = some root :=
    HashOracle.treeHashAtom_ofSkeletons (by simp [hashed])
  have hproof : hashes.simplifyMerkleProof actionHash (.pair .nil .nil) = some root :=
    bind_intro hroot (bind_intro rfl rfl)
  exact bind_intro rfl (bind_intro hhash (bind_intro hproof (Clvm.eq_atom root)))

/-- The call returns the new state and the one condition. -/
theorem exists_call : ∃ cs, (Catalog.Action.run inner constants .delegatedState
    (.pair .nil (.atom [7])) (.pair (.atom [9]) (.atom (filled 62))))
      = some (.pair .nil (.atom [9]), cs) := by
  have hstate : hashes.treeHash (.atom [9]) = some (Skeleton.ofClvm (.atom [9])).hash :=
    HashOracle.treeHash_ofSkeletons (by simp [hashed])
  have hmem : Skeleton.curry (filled 42) [filled 53, filled 62] ∈ hashed := by simp [hashed]
  have hsender := HashOracle.curryTreeHash_ofSkeletons hmem
  exact ⟨_, delegatedState_eq_some.2 ⟨_, _, _, _, _, _, rfl, rfl, hstate, hsender, rfl⟩⟩

/-- The spend goes through. -/
theorem exists_out :
    ∃ out, ActionLayer.main machine (layer.curried (.atom [7])) solution = some out := by
  obtain ⟨cs, hcall⟩ := exists_call
  obtain ⟨d, hd⟩ := exists_inner
  obtain ⟨f, hf, hlayer⟩ := bind_elim hd
  have hself : Finalizer.puzzleHash hashes finalizerConstants = some f :=
    finalizer_hash.symm.trans hf
  have heval : machine.eval (program .delegatedState)
      (.pair (.pair .nil (.atom [7])) (.pair (.atom [9]) (.atom (filled 62))))
      = some (.pair (.pair .nil (.atom [9])) (encode cs)) :=
    (eval_program .delegatedState _ _).trans (Option.map_eq_some_iff.2 ⟨_, hcall, rfl⟩)
  have hrun : ActionLayer.runActions machine solution.puzzles .nil
      (.pair (.pair .nil (.atom [7])) .nil) [.atom [1]] solution.solutions
      = some (.pair (.pair .nil (.atom [9]))
          (.ofList ([cs.map Condition.toClvm, []].map Clvm.ofList))) :=
    bind_intro rfl (bind_intro rfl (bind_intro rfl (bind_intro heval rfl)))
  have hselectors : ActionLayer.reduceAndVerifyProofs machine (.atom root) solution.puzzles []
      solution.selectorsAndProofs = some [.atom [1]] :=
    bind_intro rfl (bind_intro validSelector_eq (bind_intro rfl rfl))
  refine ⟨.ofList (Finalizer.recreation finalizerConstants d ::
    [cs.map Condition.toClvm, []].flatten), ?_⟩
  refine bind_intro rfl (bind_intro hselectors (bind_intro hrun ?_))
  exact (eval_finalizer _).trans (Finalizer.main_eq_some.2 ⟨f, d, hself, hlayer, rfl⟩)

/-- The history of this one spend. -/
theorem exists_history :
    ∃ out state', History machine layer (.atom [7]) [⟨.atom [7], solution, out, state'⟩] state' := by
  obtain ⟨out, hout⟩ := exists_out
  obtain ⟨calls, steps, hunique, -⟩ := exists_orderly collisionFree hash_inner runs hout
  exact ⟨out, _, .spend .launch hout ((hunique _).2 rfl)⟩

end ContinuityExample

open ContinuityExample in
theorem registry_continuity_delegated : ∃ out state',
    (∃ callss, List.Forall₂ (fun sp calls => ∃ steps,
        Orderly machine ((RegistryKind.catalog constants).contract inner) program layer sp calls steps)
        [⟨.atom [7], solution, out, state'⟩] callss ∧
      state' = ((RegistryKind.catalog constants).contract inner).stateAfter (.atom [7])
        callss.flatten) ∧
    ∀ s out', ActionLayer.main machine (layer.curried state') s = some out' →
      ∃ calls steps state'', (∀ state, layer.Recreates machine.hash out' state ↔ state = state'') ∧
        Orderly machine ((RegistryKind.catalog constants).contract inner) program layer
          ⟨state', s, out', state''⟩ calls steps := by
  obtain ⟨out, state', hhistory⟩ := exists_history
  exact ⟨out, state',
    registry_continuity machine collisionFree hash_inner (.catalog constants) runs hhistory⟩

end SlotMachine
