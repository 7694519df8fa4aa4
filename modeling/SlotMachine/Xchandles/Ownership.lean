import SlotMachine.Xchandles.Uniqueness

/-!
# XCHandles: who owns a handle

What each action may do to the handle slots it spends, and what this means for
a whole history: the owner and the resolved launcher id of a handle change only
by `execute_update`, with the owner's consent and before the expiration, or by
`expire`, after it.

* `Rewrites` — what a step may do to a slot it spends; `Explains.rewrites`.
* `not_expired_and_expired` — **no instant allows both** an expiry of a slot and
  an extension or update of it.
* `handle_ownership` — **the changes of a handle in a block**, in order.
-/

namespace SlotMachine.Xchandles

open Settlement SortedList Trail

/-- What `execute_update` needs for the change `m` of a slot: the slot has not
expired, the coin of the current owner sends a message, and singletons with the
new owner id and the new resolved id approve. -/
def ExecutesWith (H : HashOracle) (K : Constants) (cs : List Condition) (m : Clvm × Clvm) : Prop :=
  ∃ (expiration owner resolved newOwner newResolved ownerInner resolvedInner : Clvm)
    (proof : CompactCoinProof) (slotHash ownerId newOwnerCoin newResolvedCoin : Bytes),
    expirationOf m.1 = some expiration ∧ expirationOf m.2 = some expiration ∧
    dataOf m.1 = some (.pair owner resolved) ∧ dataOf m.2 = some (.pair newOwner newResolved) ∧
    .assertBeforeSecondsAbsolute expiration ∈ cs ∧
    ownerCoinId H K owner proof = some ownerId ∧
    .receiveMessage coinPuzzle (.tagged 'u' slotHash) [.atom ownerId] ∈ cs ∧
    singletonPuzzleHash H K newOwner ownerInner = some newOwnerCoin ∧
    .receiveMessage puzzlePuzzle (.tagged 'o' slotHash) [.atom newOwnerCoin] ∈ cs ∧
    singletonPuzzleHash H K newResolved resolvedInner = some newResolvedCoin ∧
    .receiveMessage puzzlePuzzle (.tagged 'r' slotHash) [.atom newResolvedCoin] ∈ cs

/-- What `expire` needs for the change `m` of a slot: the slot has expired, a
precommit coin is consumed, and a singleton with the new owner id approves. -/
def ExpiresWith (H : HashOracle) (K : Constants) (cs : List Condition) (m : Clvm × Clvm) : Prop :=
  ∃ (expiration newOwner newResolved ownerInner price : Clvm) (precommitCoin newOwnerCoin : Bytes),
    expirationOf m.1 = some expiration ∧ dataOf m.2 = some (.pair newOwner newResolved) ∧
    .assertSecondsAbsolute expiration ∈ cs ∧
    .sendMessage puzzlePuzzleAmount (.atom [1]) [.atom precommitCoin, price] ∈ cs ∧
    singletonPuzzleHash H K newOwner ownerInner = some newOwnerCoin ∧
    .receiveMessage puzzlePuzzle (.tagged 'e' precommitCoin) [.atom newOwnerCoin] ∈ cs

/-- What an action may do to a handle slot it spends. -/
inductive Rewrites (H : HashOracle) (K : Constants) (cs : List Condition) (m : Clvm × Clvm) :
    Action → Prop where
  | execute : ExecutesWith H K cs m → Rewrites H K cs m .executeUpdate
  | expire : ExpiresWith H K cs m → Rewrites H K cs m .expire
  | extend {expiration : Clvm} : dataOf m.2 = dataOf m.1 → expirationOf m.1 = some expiration →
      .assertBeforeSecondsAbsolute expiration ∈ cs → Rewrites H K cs m .extend
  | initiate {expiration : Clvm} : dataOf m.2 = dataOf m.1 → expirationOf m.2 = expirationOf m.1 →
      expirationOf m.1 = some expiration → .assertBeforeSecondsAbsolute expiration ∈ cs →
      Rewrites H K cs m .initiateUpdate
  | keep {action : Action} : action = .register ∨ action = .oracle ∨ action = .refund →
      dataOf m.2 = dataOf m.1 → expirationOf m.2 = expirationOf m.1 → Rewrites H K cs m action

variable {M : Machine} {K : Constants}

/-- A slot of which only the counter changes keeps expiration and data. -/
theorem dataOf_counter_congr (c c' ab : Clvm) : dataOf (.pair c ab) = dataOf (.pair c' ab) := by
  rcases ab with _ | ⟨_, _ | _⟩ <;> rfl

theorem expirationOf_counter_congr (c c' ab : Clvm) :
    expirationOf (.pair c ab) = expirationOf (.pair c' ab) := by
  rcases ab with _ | ⟨_, _ | _⟩ <;> rfl

theorem ExpireRun.expiresWith {truth solution : Clvm} (r : ExpireRun M K truth solution) :
    ExpiresWith M.hash K r.conditions (r.before, r.after) := by
  refine ⟨r.s.pricing.solution.currentExpiration, r.s.other.newRest.ownerLauncherId,
    r.s.other.newRest.resolvedLauncherId, r.s.newOwnerInnerPuzzleHash, r.priced.totalPrice,
    r.precommitCoin, r.owner, rfl, rfl, ?_, ?_, r.hashes_owner, ?_⟩ <;>
    simp [ExpireRun.conditions, expireConditions]

theorem ExecuteRun.executesWith {solution : Clvm} (r : ExecuteRun M K solution) :
    ExecutesWith M.hash K r.conditions (r.s.currentSlot.toClvm, r.after) := by
  refine ⟨r.s.currentSlot.expiration, r.s.currentSlot.ownerLauncherId,
    r.s.currentSlot.resolvedLauncherId, r.s.newData.ownerLauncherId, r.s.newData.resolvedLauncherId,
    r.s.newOwnerInnerPuzzleHash, r.s.newResolvedInnerPuzzleHash, r.s.currentOwnerProof,
    r.slotValueHash, r.ownerId, r.newOwner, r.newResolved, rfl, rfl, rfl, rfl, ?_, r.executes, ?_,
    r.hashes_newOwner, ?_, r.hashes_newResolved, ?_⟩ <;>
    simp [ExecuteRun.conditions]

/-- A refund keeps expiration and data of the slot that was named. -/
theorem RefundRun.keeps {truth solution : Clvm} (r : RefundRun M K truth solution)
    {m : Clvm × Clvm} (hm : m ∈ r.footprint.moves) :
    dataOf m.2 = dataOf m.1 ∧ expirationOf m.2 = expirationOf m.1 := by
  have hlast := r.last_eq
  rw [RefundRun.footprint] at hm
  cases hv : r.valid with
  | false =>
      rw [hv] at hm
      exact absurd hm List.not_mem_nil
  | true =>
      rw [hv] at hlast hm
      obtain ⟨c, a, e, d, spent, created, hslot, -, -, -⟩ := keepSlot_eq_some.1 hlast
      obtain rfl := List.mem_singleton.1 hm
      rw [hslot]
      exact ⟨rfl, rfl⟩

/-- **Every action keeps to its rules.** -/
theorem Explains.rewrites {action : Action} {truth solution : Clvm} {cs : List Condition}
    {f : Footprint} (h : Explains M K truth solution action cs f) {m : Clvm × Clvm}
    (hm : m ∈ f.moves) : Rewrites M.hash K cs m action := by
  cases h with
  | register r =>
      rcases List.mem_pair.1 hm with rfl | rfl <;>
        exact .keep (Or.inl rfl) (dataOf_congr ..) (expirationOf_congr ..)
  | expire r =>
      obtain rfl := List.mem_singleton.1 hm
      exact .expire r.expiresWith
  | extend r =>
      obtain rfl := List.mem_singleton.1 hm
      refine .extend rfl rfl ?_
      simp [ExtendRun.conditions, extendConditions]
  | oracle r =>
      obtain rfl := List.mem_singleton.1 hm
      exact .keep (Or.inr (Or.inl rfl)) (dataOf_counter_congr ..) (expirationOf_counter_congr ..)
  | initiateUpdate r =>
      obtain rfl := List.mem_singleton.1 hm
      refine .initiate rfl rfl rfl ?_
      simp [InitiateRun.conditions]
  | executeUpdate r =>
      obtain rfl := List.mem_singleton.1 hm
      exact .execute r.executesWith
  | refund r => exact .keep (Or.inr (Or.inr rfl)) (r.keeps hm).1 (r.keeps hm).2
  | delegatedState d sender => exact absurd hm List.not_mem_nil

/-! ## Before and after the expiration -/

/-- The three actions that need a slot which has not expired check that. -/
theorem Rewrites.before_expiration {H : HashOracle} {action : Action} {cs : List Condition}
    {m : Clvm × Clvm} (h : Rewrites H K cs m action)
    (ha : action = .extend ∨ action = .initiateUpdate ∨ action = .executeUpdate) :
    ∃ e, expirationOf m.1 = some e ∧ .assertBeforeSecondsAbsolute e ∈ cs := by
  cases h with
  | execute h =>
      obtain ⟨e, _, _, _, _, _, _, _, _, _, _, _, he, -, -, -, hbefore, -⟩ := h
      exact ⟨e, he, hbefore⟩
  | expire h => simp at ha
  | extend _ he hbefore => exact ⟨_, he, hbefore⟩
  | initiate _ _ he hbefore => exact ⟨_, he, hbefore⟩
  | keep hk => rcases hk with rfl | rfl | rfl <;> simp at ha

/-- **Exclusion.**  At no instant can a slot be both expired and extended or updated. -/
theorem not_expired_and_expired {H : HashOracle} {action : Action} {cs cs' : List Condition}
    {m m' : Clvm × Clvm} {info info' : BlockInfo} (h : Rewrites H K cs m action)
    (ha : action = .extend ∨ action = .initiateUpdate ∨ action = .executeUpdate)
    (h' : Rewrites H K cs' m' .expire) (hslot : m.1 = m'.1)
    (htime : info.timestamp = info'.timestamp) (hcs : ∀ c ∈ cs, c.Holds info)
    (hcs' : ∀ c ∈ cs', c.Holds info') : False := by
  obtain ⟨e, he, hbefore⟩ := h.before_expiration ha
  cases h' with
  | expire h' =>
      obtain ⟨e', _, _, _, _, _, _, he', -, hafter, -⟩ := h'
      rw [hslot, he'] at he
      obtain rfl := Option.some.inj he
      have hreached : (readUint 8 e').Reached info'.timestamp := hcs' _ hafter
      have hahead : (readUint 8 e').Ahead info.timestamp := hcs _ hbefore
      rw [htime] at hahead
      exact Reading.not_ahead_of_reached hreached hahead
  | keep hk => simp at hk

/-! ## The changes of a handle in a history -/

/-- Data that differs at the two ends of a trail was changed on the way. -/
theorem exists_changes_data {a b : Clvm} {trail : List (Clvm × Clvm)} (h : IsTrail a trail b)
    (hab : dataOf b ≠ dataOf a) : ∃ m ∈ trail, dataOf m.2 ≠ dataOf m.1 := by
  by_contra hnone
  exact hab (h.eq_of_forall fun m hm => by_contra fun hne => hnone ⟨m, hm, hne⟩)

/-- Only `execute_update` and `expire` change the data of a slot. -/
theorem Rewrites.of_data_ne {H : HashOracle} {action : Action} {cs : List Condition}
    {m : Clvm × Clvm} (h : Rewrites H K cs m action) (hm : dataOf m.2 ≠ dataOf m.1) :
    (action = .executeUpdate ∧ ExecutesWith H K cs m) ∨
      (action = .expire ∧ ExpiresWith H K cs m) := by
  cases h with
  | execute h => exact Or.inl ⟨rfl, h⟩
  | expire h => exact Or.inr ⟨rfl, h⟩
  | extend hdata _ _ => exact absurd hdata hm
  | initiate hdata _ _ _ => exact absurd hdata hm
  | keep _ hdata _ => exact absurd hdata hm

/-- The step of a block that makes a move. -/
theorem Footprints.exists_step {steps : List (Step Action)} {fs : List Footprint}
    (h : Footprints M K steps fs) {k : Option Clvm} {m : Clvm × Clvm} (hm : m ∈ movesOn k fs) :
    ∃ s ∈ steps, ∃ f, Explains M K s.truth s.call.solution s.call.action s.conditions f ∧
      m ∈ f.moves := by
  obtain ⟨f, hf, hmf⟩ := List.mem_flatMap.1 (List.mem_filter.1 hm).1
  obtain ⟨s, hs, hexplains⟩ := h.exists_mem hf
  exact ⟨s, hs, f, hexplains, hmf⟩

/-! ## A handle that changes its owner -/

namespace UpdateExample

open Example

/-- The handle has a slot before the execution. -/
theorem exists_handle {r : Registry} {items : Multiset Item}
    (hrun : Run (Action.run machine constants) launched pending r)
    (hitems : Behind machine.hash constants items r) :
    ∃ v ∈ handlesOf items, keyOf v = some (.atom handleHash) := by
  obtain ⟨items', hitems', hinv⟩ := exists_invariant collisionFree (by decide) starts hrun
  obtain rfl := hitems.unique collisionFree (by decide) hitems'
  have hkey : some (.atom handleHash) ∈ keysOf items := by
    rw [hinv.keys]
    exact Multiset.mem_cons_of_mem (Multiset.mem_cons_of_mem (Multiset.mem_singleton_self _))
  obtain ⟨v, hv, hkey⟩ := Multiset.mem_map.1 hkey
  exact ⟨v, hv, hkey⟩

/-- The execution moves the slot of the handle to the new owner, and does nothing else. -/
theorem executed_moves {fs : List Footprint}
    (h : Footprints machine constants secondExecuted.steps fs) :
    movesOn (some (.atom handleHash)) fs = [((current [2]).toClvm, updated)] := by
  obtain ⟨f, _, hf, hnil, rfl⟩ := List.forall₂_cons_left_iff.1 h
  obtain rfl := List.forall₂_nil_left_iff.1 hnil
  obtain ⟨x, -, rfl⟩ := hf.execute_inv
  have hs : x.s = execution := ExecuteSolution.toClvm_injective x.solution_eq.symm
  have hcounter : x.counter = [2] := by
    have h2 := x.counter_eq
    rw [hs] at h2
    exact (Clvm.atom.inj h2).symm
  have hbefore : x.s.currentSlot.toClvm = (current [2]).toClvm := by rw [hs]; rfl
  have hafter : x.after = updated := by
    rw [ExecuteRun.after, hs, hcounter]
    exact congrArg (fun c => (current [2]).update c (data 24 25).toClvm) (by decide)
  rw [movesOn, List.flatMap_singleton, ExecuteRun.footprint, hbefore, hafter]
  exact List.filter_cons_of_pos (decide_eq_true rfl)

end UpdateExample

/-- **Handle ownership.**  In every block of every history, a handle goes from
its slot before the block to its slot after it through all moves the actions of
the block make on it, one after the other; each of them keeps to the rules of
its action, whose conditions the block fulfils.  So owner and resolved launcher
id differ afterwards only if an `execute_update` or an `expire` of the block
changed them, with all these need.  And at no time can a slot be spent both by
an action that needs it unexpired and by `expire`. -/
theorem handle_ownership (hH : M.hash.CollisionFree)
    (hK : K.handleSlot1stCurryHash ≠ K.updateSlot1stCurryHash) {S : Sentinels} {r₀ r : Registry}
    (h0 : Starts M.hash K S r₀) {events : List (Event Action)}
    (hrun : Run (Action.run M K) r₀ events r) :
    (∀ past e future, events = past ++ e :: future →
      ∃ r₁ r₂ items₁ items₂ fs, Run (Action.run M K) r₀ past r₁ ∧
        BlockStep (Action.run M K) r₁ e.block e.steps r₂ ∧ Behind M.hash K items₁ r₁ ∧
        Behind M.hash K items₂ r₂ ∧ Footprints M K e.steps fs ∧
        ∀ a ∈ handlesOf items₁, ∃ b ∈ handlesOf items₂, keyOf b = keyOf a ∧
          ∃ trail : List (Clvm × Clvm), trail.Perm (movesOn (keyOf a) fs) ∧ IsTrail a trail b ∧
            (∀ m ∈ trail, ∃ s ∈ e.steps, Rewrites M.hash K s.conditions m s.call.action ∧
              ∀ c ∈ s.conditions, c.Holds e.block.info) ∧
            (dataOf b ≠ dataOf a → ∃ m ∈ trail, ∃ s ∈ e.steps,
              ((s.call.action = .executeUpdate ∧ ExecutesWith M.hash K s.conditions m) ∨
                (s.call.action = .expire ∧ ExpiresWith M.hash K s.conditions m)) ∧
              ∀ c ∈ s.conditions, c.Holds e.block.info)) ∧
    ∀ (truth solution truth' solution' : Clvm) (action : Action) (cs cs' : List Condition)
      (f f' : Footprint) (m m' : Clvm × Clvm) (info info' : BlockInfo),
      Explains M K truth solution action cs f →
      (action = .extend ∨ action = .initiateUpdate ∨ action = .executeUpdate) →
      Explains M K truth' solution' .expire cs' f' → m ∈ f.moves → m' ∈ f'.moves → m.1 = m'.1 →
      info.timestamp = info'.timestamp → (∀ c ∈ cs, c.Holds info) →
      ¬ ∀ c ∈ cs', c.Holds info' := by
  constructor
  · rintro past e future rfl
    obtain ⟨r₁, r₂, hpast, hstep⟩ := hrun.exists_block rfl
    obtain ⟨items₁, hitems₁, hinv⟩ := exists_invariant hH hK h0 hpast
    obtain ⟨fs, hfs⟩ := exists_footprints hstep
    obtain ⟨items₂, hitems₂, hsettles⟩ := exists_settlement hH hK hstep hfs hitems₁
    obtain ⟨l, hl, hlinked⟩ := (hinv.step hfs hsettles).exists_doublyLinked
    have hnodup := nodup_keysOf hl hlinked
    refine ⟨r₁, r₂, items₁, items₂, fs, hpast, hstep, hitems₁, hitems₂, hfs, fun a ha => ?_⟩
    rcases exists_handle_trail hfs.lawful hsettles hnodup (keyOf a) with
      ⟨hnone, -⟩ | ⟨a', b, trail, -, hunique, hb, -, hbk, hperm, htrail⟩
    · exact absurd rfl (hnone a ha)
    obtain rfl := hunique a ha rfl
    have hrules : ∀ m ∈ trail, ∃ s ∈ e.steps, Rewrites M.hash K s.conditions m s.call.action ∧
        ∀ c ∈ s.conditions, c.Holds e.block.info := by
      intro m hm
      obtain ⟨s, hs, f, hf, hmf⟩ := hfs.exists_step (hperm.mem_iff.1 hm)
      exact ⟨s, hs, hf.rewrites hmf, hstep.holds s hs⟩
    refine ⟨b, hb, hbk, trail, hperm, htrail, hrules, fun hne => ?_⟩
    obtain ⟨m, hm, hchange⟩ := exists_changes_data htrail hne
    obtain ⟨s, hs, hrewrites, hholds⟩ := hrules m hm
    exact ⟨m, hm, s, hs, hrewrites.of_data_ne hchange, hholds⟩
  · intro truth solution truth' solution' action cs cs' f f' m m' info info' hf ha hf' hm hm' hslot
      htime hcs hcs'
    exact not_expired_and_expired (hf.rewrites hm) ha (hf'.rewrites hm') hslot htime hcs hcs'

/-- The execution of an update hands the handle to its new owner, and at that time nobody can
buy the handle. -/
theorem handle_ownership_update : ∃ r,
    Run (Action.run UpdateExample.machine Example.constants) UpdateExample.launched
      (UpdateExample.pending ++ [UpdateExample.secondExecuted]) r ∧
    (∃ r₁ r₂ items₁ items₂,
      Run (Action.run UpdateExample.machine Example.constants) UpdateExample.launched
        UpdateExample.pending r₁ ∧
      Behind UpdateExample.machine.hash Example.constants items₁ r₁ ∧
      Behind UpdateExample.machine.hash Example.constants items₂ r₂ ∧
      (UpdateExample.current [2]).toClvm ∈ handlesOf items₁ ∧
      UpdateExample.updated ∈ handlesOf items₂ ∧
      dataOf UpdateExample.updated ≠ dataOf (UpdateExample.current [2]).toClvm ∧
      ExecutesWith UpdateExample.machine.hash Example.constants UpdateExample.executed.conditions
        ((UpdateExample.current [2]).toClvm, UpdateExample.updated)) ∧
    ∀ info : BlockInfo, info.timestamp = 800 →
      ¬ ∀ c ∈ UpdateExample.bought.conditions, c.Holds info := by
  obtain ⟨r, hrun⟩ := UpdateExample.exists_run
  obtain ⟨hblocks, hexclusive⟩ :=
    handle_ownership UpdateExample.collisionFree (by decide) UpdateExample.starts hrun
  refine ⟨r, hrun, ?_, ?_⟩
  · obtain ⟨r₁, r₂, items₁, items₂, fs, hpast, -, hitems₁, hitems₂, hfs, hall⟩ := hblocks _ _ _ rfl
    obtain ⟨a, ha, hkey⟩ := UpdateExample.exists_handle hpast hitems₁
    obtain ⟨b, hb, -, trail, hperm, htrail, -, hchange⟩ := hall a ha
    rw [hkey, UpdateExample.executed_moves hfs] at hperm
    obtain rfl := List.perm_singleton.1 hperm
    obtain ⟨rfl, rfl⟩ := htrail
    have hne : dataOf UpdateExample.updated ≠ dataOf (UpdateExample.current [2]).toClvm := by decide
    obtain ⟨m, hm, s, hs, hneeds, -⟩ := hchange hne
    obtain rfl := List.mem_singleton.1 hm
    obtain rfl := List.mem_singleton.1 hs
    rcases hneeds with ⟨-, hexecutes⟩ | ⟨hexpire, -⟩
    · exact ⟨r₁, r₂, items₁, items₂, hpast, hitems₁, hitems₂, ha, hb, hne, hexecutes⟩
    · cases hexpire
  · intro info htime
    exact hexclusive UpdateExample.truth _ _ _ _ _ _ _ _ _ _ _ info
      (.executeUpdate UpdateExample.executed) (Or.inr (Or.inr rfl)) (.expire UpdateExample.bought)
      (List.mem_singleton_self _) (List.mem_singleton_self _) rfl htime.symm
      UpdateExample.execution_holds

end SlotMachine.Xchandles
