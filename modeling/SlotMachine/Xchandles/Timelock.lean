import SlotMachine.Xchandles.Ownership

/-!
# XCHandles: the two steps of an update

An update of a handle is initiated in one block and executed in a later one.
The two are tied together by the update slot, which names the initiating coin,
and by the heights both actions check.

* `Call.openedUpdate`, `Call.closedUpdate` — the update slot an action opens or closes.
* `updates_balance` — **an update slot is closed at most as often as it was opened.**
* `initiated_before` — **an executed update was initiated strictly earlier**, by
  the owner, for the same handle, data and height, and long enough ago.
* `ChainRules`, `not_executed_after_spent` — **once the child of the initiating
  coin is spent, the update can no longer be executed.**
-/

namespace SlotMachine.Xchandles

open Settlement SortedList Trail

variable {M : Machine} {K : Constants}

/-! ## Opening and closing update slots -/

/-- The update slot a call opens. -/
def Call.openedUpdate (H : HashOracle) (K : Constants) (c : Call Action) : Option Clvm :=
  if c.action = .initiateUpdate then do
    let s ← InitiateSolution.ofClvm? c.solution
    let id ← ownerCoinId H K s.currentSlot.ownerLauncherId s.currentOwnerProof
    let minExecutionHeight ← s.minHeight.add (.ofInt K.relativeBlockHeight)
    return updateSlotValue (.atom id) minExecutionHeight s.currentSlot.handleHash s.newData
  else none

/-- The update slot a call closes. -/
def Call.closedUpdate (c : Call Action) : Option Clvm :=
  if c.action = .executeUpdate then do
    let s ← ExecuteSolution.ofClvm? c.solution
    return updateSlotValue s.currentOwnerProof.parentInfo s.minExecutionHeight
      s.currentSlot.handleHash s.newData.toClvm
  else none

theorem InitiateRun.openedUpdate_eq {solution : Clvm} (r : InitiateRun M K solution) :
    Call.openedUpdate M.hash K ⟨.initiateUpdate, solution⟩ = some r.updateSlot := by
  have hadd : r.s.minHeight.add (.ofInt K.relativeBlockHeight)
      = some (.ofInt (intFromBytes r.minHeight + K.relativeBlockHeight)) := by
    rw [r.minHeight_eq, Clvm.ofInt, Clvm.add_atom, intFromBytes_intToBytes]
  rw [Call.openedUpdate, if_pos rfl]
  exact bind_intro (InitiateSolution.ofClvm?_eq_some.2 r.solution_eq)
    (bind_intro r.initiates (bind_intro hadd rfl))

theorem ExecuteRun.closedUpdate_eq {solution : Clvm} (r : ExecuteRun M K solution) :
    Call.closedUpdate ⟨.executeUpdate, solution⟩ = some r.updateSlot := by
  rw [Call.closedUpdate, if_pos rfl]
  exact bind_intro (ExecuteSolution.ofClvm?_eq_some.2 r.solution_eq) rfl

/-- Only the two steps of an update touch update slots. -/
theorem Explains.updates {action : Action} {truth solution : Clvm} {cs : List Condition}
    {f : Footprint} (h : Explains M K truth solution action cs f) :
    f.opened = (Call.openedUpdate M.hash K ⟨action, solution⟩).toList ∧
      f.closed = (Call.closedUpdate ⟨action, solution⟩).toList := by
  cases h with
  | initiateUpdate r => exact ⟨by rw [r.openedUpdate_eq]; rfl, rfl⟩
  | executeUpdate r => exact ⟨rfl, by rw [r.closedUpdate_eq]; rfl⟩
  | refund r =>
      rw [RefundRun.footprint]
      split <;> exact ⟨rfl, rfl⟩
  | register r => exact ⟨rfl, rfl⟩
  | expire r => exact ⟨rfl, rfl⟩
  | extend r => exact ⟨rfl, rfl⟩
  | oracle r => exact ⟨rfl, rfl⟩
  | delegatedState d sender => exact ⟨rfl, rfl⟩

/-- The update slots opened in a history. -/
def allOpened (H : HashOracle) (K : Constants) (events : List (Event Action)) : List Clvm :=
  events.flatMap fun e => e.steps.filterMap fun s => Call.openedUpdate H K s.call

/-- The update slots closed in a history. -/
def allClosed (events : List (Event Action)) : List Clvm :=
  events.flatMap fun e => e.steps.filterMap fun s => Call.closedUpdate s.call

/-- The update slots a block opens and closes. -/
theorem Footprints.total_updateEffect {steps : List (Step Action)} {fs : List Footprint}
    (h : Footprints M K steps fs) :
    (Effect.total (fs.map Footprint.updateEffect)).created
        = (steps.filterMap fun s => Call.openedUpdate M.hash K s.call : List Clvm) ∧
      (Effect.total (fs.map Footprint.updateEffect)).consumed
        = (steps.filterMap fun s => Call.closedUpdate s.call : List Clvm) := by
  induction h with
  | nil => exact ⟨rfl, rfl⟩
  | @cons s f steps fs hs _ ih =>
      obtain ⟨hopened, hclosed⟩ := hs.updates
      rw [List.map_cons, Effect.created_total_cons, Effect.consumed_total_cons, ih.1, ih.2,
        Footprint.updateEffect, hopened, hclosed, List.filterMap_cons, List.filterMap_cons]
      constructor
      · cases Call.openedUpdate M.hash K s.call <;> rfl
      · cases Call.closedUpdate s.call <;> rfl

section History

variable {S : Sentinels} {r₀ r : Registry} {events : List (Event Action)}

/-- **Update slots balance.**  In every history, the live update slots and the
closed ones are together the opened ones. -/
theorem updates_balance (hH : M.hash.CollisionFree)
    (hK : K.handleSlot1stCurryHash ≠ K.updateSlot1stCurryHash) (h0 : Starts M.hash K S r₀)
    (hrun : Run (Action.run M K) r₀ events r) {items : Multiset Item}
    (hitems : Behind M.hash K items r) :
    updatesOf items + (allClosed events : List Clvm) = (allOpened M.hash K events : List Clvm) := by
  induction hrun generalizing items with
  | start =>
      rw [hitems.unique hH hK h0]
      rfl
  | @next past r r' b steps hpast hstep ih =>
      obtain ⟨items₁, hitems₁, -⟩ := exists_invariant hH hK h0 hpast
      obtain ⟨fs, hfs⟩ := exists_footprints hstep
      obtain ⟨items₂, hitems₂, hsettles⟩ := exists_settlement hH hK hstep hfs hitems₁
      obtain rfl := hitems.unique hH hK hitems₂
      have hblock := settles_updates hsettles
      rw [Settles, hfs.total_updateEffect.1, hfs.total_updateEffect.2] at hblock
      rw [allClosed, allOpened, List.flatMap_append, List.flatMap_append, List.flatMap_singleton,
        List.flatMap_singleton, ← Multiset.coe_add, ← Multiset.coe_add, add_left_comm, hblock,
        ← add_assoc, add_comm _ (updatesOf items₁)]
      exact congrArg (· + _) (ih hitems₁)

/-- A live update slot was opened by some step of the history. -/
theorem exists_opened_of_live (hH : M.hash.CollisionFree)
    (hK : K.handleSlot1stCurryHash ≠ K.updateSlot1stCurryHash) (h0 : Starts M.hash K S r₀)
    (hrun : Run (Action.run M K) r₀ events r) {items : Multiset Item}
    (hitems : Behind M.hash K items r) {u : Clvm} (hu : u ∈ updatesOf items) :
    ∃ past e future, events = past ++ e :: future ∧
      ∃ s ∈ e.steps, Call.openedUpdate M.hash K s.call = some u := by
  have hbalance := updates_balance hH hK h0 hrun hitems
  have hopened : u ∈ allOpened M.hash K events := by
    rw [← Multiset.mem_coe, ← hbalance]
    exact Multiset.mem_add.2 (Or.inl hu)
  obtain ⟨e, he, hu'⟩ := List.mem_flatMap.1 hopened
  obtain ⟨s, hs, hsu⟩ := List.mem_filterMap.1 hu'
  obtain ⟨past, future, rfl⟩ := List.append_of_mem he
  exact ⟨past, e, future, rfl, s, hs, hsu⟩

end History

/-! ## The delay -/

theorem action_of_openedUpdate {H : HashOracle} {c : Call Action} {u : Clvm}
    (h : Call.openedUpdate H K c = some u) : c.action = .initiateUpdate := by
  by_contra hne
  rw [Call.openedUpdate, if_neg hne] at h
  cases h

/-- **The delay.**  A block that initiates an update and a block that executes
one with the resulting height are further apart than the relative height. -/
theorem height_lt_of_update {info info' : BlockInfo} {minHeight : Bytes} {relative : ℤ}
    (hpos : 0 < relative)
    (hinitiate : (Condition.assertBeforeHeightAbsolute (.atom minHeight)).Holds info)
    (hexecute : (Condition.assertHeightAbsolute
      (.ofInt (intFromBytes minHeight + relative))).Holds info') :
    (info.height : ℤ) + relative < info'.height := by
  obtain ⟨b, hb, hreached, hrange⟩ := Reading.le_of_reached hexecute
  obtain rfl := Clvm.atom.inj hb
  rw [intFromBytes_intToBytes] at hreached hrange
  obtain ⟨b', hb', hahead⟩ := Reading.lt_of_ahead hinitiate
  obtain rfl := Clvm.atom.inj hb'
  rcases hahead with hahead | hlarge
  · omega
  · -- a height out of range can never be reached
    omega

/-! ## Who owns the handle -/

/-- `v` is the slot of its handle at some moment of a block that `r` comes
before: a stage of the trail of the handle through the block. -/
def IsStage (M : Machine) (K : Constants) (r : Registry) (steps : List (Step Action)) (v : Clvm) :
    Prop :=
  ∃ items fs a b trail, Behind M.hash K items r ∧ Footprints M K steps fs ∧
    (a ∈ handlesOf items ∨ a ∈ fs.flatMap Footprint.inserted) ∧ keyOf a = keyOf v ∧
    trail.Perm (movesOn (keyOf v) fs) ∧ IsTrail a trail b ∧ ∃ m ∈ trail, m.1 = v

section Lineage

variable {S : Sentinels} {r₀ r : Registry} {events : List (Event Action)}

/-- Whatever slot a step spends is the slot of its handle at that moment. -/
theorem isStage_of_move (hH : M.hash.CollisionFree)
    (hK : K.handleSlot1stCurryHash ≠ K.updateSlot1stCurryHash) (h0 : Starts M.hash K S r₀)
    (hrun : Run (Action.run M K) r₀ events r) {b : Block Action} {steps : List (Step Action)}
    {r' : Registry} (hstep : BlockStep (Action.run M K) r b steps r') {fs : List Footprint}
    (hfs : Footprints M K steps fs) {f : Footprint} (hf : f ∈ fs) {m : Clvm × Clvm}
    (hm : m ∈ f.moves) : IsStage M K r steps m.1 := by
  obtain ⟨items, hitems, hinv⟩ := exists_invariant hH hK h0 hrun
  obtain ⟨items', -, hsettles⟩ := exists_settlement hH hK hstep hfs hitems
  obtain ⟨l, hl, hlinked⟩ := (hinv.step hfs hsettles).exists_doublyLinked
  have hmove : m ∈ movesOn (keyOf m.1) fs :=
    List.mem_filter.2 ⟨List.mem_flatMap.2 ⟨f, hf, hm⟩, decide_eq_true rfl⟩
  rcases exists_handle_trail hfs.lawful hsettles (nodup_keysOf hl hlinked) (keyOf m.1) with
    ⟨-, hnone⟩ | ⟨a, b', trail, ha, -, -, hak, -, hperm, htrail⟩
  · rw [hnone] at hmove
    exact absurd hmove List.not_mem_nil
  · exact ⟨items, fs, a, b', trail, hitems, hfs, ha, hak, hperm, htrail, m, hperm.mem_iff.2 hmove,
      rfl⟩

/-- Everything that ties an executed update `x` (in the block `e`) to its
initiation `y` (in the block `e'`). -/
structure Matched (e e' : Event Action) {solution solution' : Clvm}
    (x : ExecuteRun M K solution) (y : InitiateRun M K solution') : Prop where
  handle_eq : x.s.currentSlot.handleHash = y.s.currentSlot.handleHash
  data_eq : x.s.newData.toClvm = y.s.newData
  height_eq : x.s.minExecutionHeight
    = .ofInt (intFromBytes y.minHeight + K.relativeBlockHeight)
  delay : (e'.block.info.height : ℤ) + K.relativeBlockHeight < e.block.info.height
  /-- The coin that initiated is a coin of the owner then, and it was spent. -/
  initiator : ownerCoinId M.hash K y.s.currentSlot.ownerLauncherId y.s.currentOwnerProof
    = some y.initiatorCoinId
  initiator_spent : y.initiatorCoinId ∈ e'.block.info.spentCoins
  /-- The coin that executes is its child, and a coin of the owner now. -/
  executor : ∃ ph, singletonPuzzleHash M.hash K x.s.currentSlot.ownerLauncherId
      x.s.currentOwnerProof.innerPuzzleHash = some ph ∧
    M.hash.coinid (.atom y.initiatorCoinId) (.atom ph) x.s.currentOwnerProof.amount
      = some x.ownerId
  executor_spent : x.ownerId ∈ e.block.info.spentCoins

/-- An update slot names the coin that opened it. -/
theorem matched_of_updateSlot_eq {e e' : Event Action} {solution solution' : Clvm}
    {x : ExecuteRun M K solution} {y : InitiateRun M K solution'}
    (hpos : 0 < K.relativeBlockHeight) (hxy : y.updateSlot = x.updateSlot)
    (hx : ∀ c ∈ x.conditions, c.Holds e.block.info)
    (hy : ∀ c ∈ y.conditions, c.Holds e'.block.info) : Matched e e' x y := by
  obtain ⟨hfirst, hsecond⟩ := Clvm.pair.inj hxy
  obtain ⟨hid, hheight⟩ := Clvm.pair.inj hfirst
  obtain ⟨hhandle, hdata⟩ := Clvm.pair.inj hsecond
  have hspent : .receiveMessage coinPuzzle (.tagged 'i' y.slotValueHash)
      [.atom y.initiatorCoinId] ∈ y.conditions := by simp [InitiateRun.conditions]
  have hspent' : .receiveMessage coinPuzzle (.tagged 'u' x.slotValueHash)
      [.atom x.ownerId] ∈ x.conditions := by simp [ExecuteRun.conditions]
  have hbefore : .assertBeforeHeightAbsolute (.atom y.minHeight) ∈ y.conditions := by
    simp [InitiateRun.conditions, y.minHeight_eq]
  have hafter : .assertHeightAbsolute (.ofInt (intFromBytes y.minHeight + K.relativeBlockHeight))
      ∈ x.conditions := by
    simp [ExecuteRun.conditions, hheight]
  have hexecutes := x.executes
  obtain ⟨ph, hph, hcoin⟩ := bind_elim hexecutes
  rw [← hid] at hcoin
  exact {
    handle_eq := hhandle.symm
    data_eq := hdata.symm
    height_eq := hheight.symm
    delay := height_lt_of_update hpos (hy _ hbefore) (hx _ hafter)
    initiator := y.initiates
    initiator_spent := by
      obtain ⟨id, hmem, hlist⟩ := hy _ hspent rfl
      rwa [Clvm.atom.inj (List.cons.inj hlist).1]
    executor := ⟨ph, hph, hcoin⟩
    executor_spent := by
      obtain ⟨id, hmem, hlist⟩ := hx _ hspent' rfl
      rwa [Clvm.atom.inj (List.cons.inj hlist).1] }

/-- **Lineage.**  An update that a block executes was initiated in an earlier
block, for the same handle, the same data and the same height. -/
theorem initiated_before (hH : M.hash.CollisionFree)
    (hK : K.handleSlot1stCurryHash ≠ K.updateSlot1stCurryHash) (hpos : 0 < K.relativeBlockHeight)
    (h0 : Starts M.hash K S r₀) (hrun : Run (Action.run M K) r₀ events r)
    {past future : List (Event Action)} {e : Event Action} (he : events = past ++ e :: future)
    {s : Step Action} (hs : s ∈ e.steps) (ha : s.call.action = .executeUpdate) :
    ∃ (past' between : List (Event Action)) (e' : Event Action) (s' : Step Action)
      (x : ExecuteRun M K s.call.solution) (y : InitiateRun M K s'.call.solution)
      (r₁ r₁' : Registry), past = past' ++ e' :: between ∧ s' ∈ e'.steps ∧
      s'.call.action = .initiateUpdate ∧ s.conditions = x.conditions ∧
      s'.conditions = y.conditions ∧ Matched e e' x y ∧
      Run (Action.run M K) r₀ past r₁ ∧ IsStage M K r₁ e.steps x.s.currentSlot.toClvm ∧
      Run (Action.run M K) r₀ past' r₁' ∧ IsStage M K r₁' e'.steps y.s.currentSlot.toClvm := by
  obtain ⟨r₁, r₂, hpast, hstep⟩ := hrun.exists_block he
  obtain ⟨items, hitems, -⟩ := exists_invariant hH hK h0 hpast
  obtain ⟨fs, hfs⟩ := exists_footprints hstep
  obtain ⟨items', hitems', hsettles⟩ := exists_settlement hH hK hstep hfs hitems
  obtain ⟨f, hf, hexplains⟩ := hfs.exists_mem_of_step hs
  rw [ha] at hexplains
  obtain ⟨x, hcs, rfl⟩ := hexplains.execute_inv
  have hstage : IsStage M K r₁ e.steps x.s.currentSlot.toClvm :=
    isStage_of_move hH hK h0 hpast hstep hfs hf (List.mem_singleton_self _)
  -- the slot that is closed was live before the block, or was opened in it
  have hclosed : x.updateSlot ∈ (Effect.total (fs.map Footprint.updateEffect)).consumed :=
    Effect.mem_consumed_total.2 ⟨_, List.mem_map_of_mem hf, Multiset.mem_singleton_self _⟩
  have hx : ∀ c ∈ x.conditions, c.Holds e.block.info := by
    rw [← hcs]; exact hstep.holds s hs
  have hinitiated : ∀ {past' : List (Event Action)} {e' : Event Action} {r₁' r₂' : Registry}
      {s' : Step Action}, Run (Action.run M K) r₀ past' r₁' →
      BlockStep (Action.run M K) r₁' e'.block e'.steps r₂' → s' ∈ e'.steps →
      Call.openedUpdate M.hash K s'.call = some x.updateSlot →
      ∃ y : InitiateRun M K s'.call.solution, s'.conditions = y.conditions ∧ Matched e e' x y ∧
        IsStage M K r₁' e'.steps y.s.currentSlot.toClvm := by
    intro past' e' r₁' r₂' s' hpast' hstep' hs' hopened
    obtain ⟨fs', hfs'⟩ := exists_footprints hstep'
    obtain ⟨f', hf', hexplains'⟩ := hfs'.exists_mem_of_step hs'
    have hopened' := hexplains'.updates.1
    have ha' := action_of_openedUpdate hopened
    rw [ha'] at hexplains'
    obtain ⟨y, hcs', rfl⟩ := hexplains'.initiate_inv
    have hslot : [y.updateSlot] = (some x.updateSlot).toList := hopened'.trans (by rw [← hopened])
    refine ⟨y, hcs', matched_of_updateSlot_eq hpos (List.cons.inj hslot).1 hx ?_, ?_⟩
    · rw [← hcs']; exact hstep'.holds s' hs'
    · exact isStage_of_move hH hK h0 hpast' hstep' hfs' hf' (List.mem_singleton_self _)
  rcases (settles_updates hsettles).mem_or_mem_of_consumed hclosed with hlive | hopened
  · obtain ⟨past', e', between, rfl, s', hs', hopened⟩ :=
      exists_opened_of_live hH hK h0 hpast hitems hlive
    obtain ⟨r₁', r₂', hpast', hstep'⟩ := hpast.exists_block rfl
    obtain ⟨y, hcs', hmatched, hstage'⟩ := hinitiated hpast' hstep' hs' hopened
    exact ⟨past', between, e', s', x, y, r₁, r₁', rfl, hs', action_of_openedUpdate hopened, hcs,
      hcs', hmatched, hpast, hstage, hpast', hstage'⟩
  · -- no block is far enough from itself
    rw [hfs.total_updateEffect.1] at hopened
    obtain ⟨s', hs', hs'opened⟩ := List.mem_filterMap.1 (Multiset.mem_coe.1 hopened)
    obtain ⟨y, -, hmatched, -⟩ := hinitiated hpast hstep hs' hs'opened
    have hdelay := hmatched.delay
    omega

/-! ## After the child of the initiating coin is spent -/

/-- `id` is a coin of a singleton whose parent is the coin `parent`. -/
def IsSingletonChild (H : HashOracle) (K : Constants) (parent id : Bytes) : Prop :=
  ∃ (launcherId innerPuzzleHash amount : Clvm) (ph : Bytes),
    singletonPuzzleHash H K launcherId innerPuzzleHash = some ph ∧
      H.coinid (.atom parent) (.atom ph) amount = some id

/-- The coins spent in a history. -/
def allSpent (events : List (Event Action)) : List Bytes :=
  events.flatMap fun e => e.block.info.spentCoins

/-- What the chain guarantees about the coins of owners: a coin is spent once,
and a singleton coin has one singleton child that can be spent. -/
structure ChainRules (H : HashOracle) (K : Constants) (events : List (Event Action)) : Prop where
  spent_once : (allSpent events).Nodup
  one_child : ∀ parent, ∀ id ∈ allSpent events, ∀ id' ∈ allSpent events,
    IsSingletonChild H K parent id → IsSingletonChild H K parent id' → id = id'

theorem action_of_closedUpdate {c : Call Action} {u : Clvm} (h : Call.closedUpdate c = some u) :
    c.action = .executeUpdate := by
  by_contra hne
  rw [Call.closedUpdate, if_neg hne] at h
  cases h

/-- **No execution after the child is spent.**  In whatever way the history goes
on after the child of the initiating coin was spent, no block executes the update. -/
theorem not_executed_after_spent (hrun : Run (Action.run M K) r₀ events r)
    (hchain : ChainRules M.hash K events) {past future : List (Event Action)} {e : Event Action}
    (he : events = past ++ e :: future) {parent id : Bytes} (hid : id ∈ e.block.info.spentCoins)
    (hchild : IsSingletonChild M.hash K parent id) {e' : Event Action} (he' : e' ∈ future)
    {s : Step Action} (hs : s ∈ e'.steps) (minHeight handleHash newData : Clvm) :
    Call.closedUpdate s.call ≠ some (updateSlotValue (.atom parent) minHeight handleHash newData) := by
  intro hclosed
  obtain ⟨between, later, rfl⟩ := List.append_of_mem he'
  -- the coin that executed is the same child
  have he'' : events = (past ++ e :: between) ++ e' :: later := by rw [he]; simp
  obtain ⟨r₁, r₂, -, hstep⟩ := hrun.exists_block he''
  obtain ⟨f, hf⟩ := exists_explains (hstep.run_eq hs)
  have hslot := hf.updates.2
  rw [action_of_closedUpdate hclosed] at hf
  obtain ⟨x, hcs, rfl⟩ := hf.execute_inv
  have hx : [x.updateSlot] = [updateSlotValue (.atom parent) minHeight handleHash newData] :=
    hslot.trans (congrArg Option.toList hclosed)
  have hparent : x.s.currentOwnerProof.parentInfo = .atom parent :=
    (Clvm.pair.inj (Clvm.pair.inj (List.cons.inj hx).1).1).1
  obtain ⟨ph, hph, hcoin⟩ := bind_elim x.executes
  rw [hparent] at hcoin
  have hmessage : .receiveMessage coinPuzzle (.tagged 'u' x.slotValueHash) [.atom x.ownerId]
      ∈ s.conditions := by simp [hcs, ExecuteRun.conditions]
  obtain ⟨id', hid', hlist⟩ := hstep.holds s hs _ hmessage rfl
  obtain rfl := Clvm.atom.inj (List.cons.inj hlist).1
  have hspent : allSpent events = allSpent past ++ (e.block.info.spentCoins
      ++ (allSpent between ++ (e'.block.info.spentCoins ++ allSpent later))) := by
    rw [he]; simp [allSpent]
  have hmem : id ∈ allSpent events := by rw [hspent]; simp [hid]
  have hmem' : x.ownerId ∈ allSpent events := by rw [hspent]; simp [hid']
  obtain rfl := hchain.one_child parent id hmem x.ownerId hmem' hchild ⟨_, _, _, ph, hph, hcoin⟩
  -- so it was spent twice
  have hnodup := hchain.spent_once
  rw [hspent, List.nodup_append] at hnodup
  exact (List.nodup_append.1 hnodup.2.1).2.2 _ hid _ (by simp [hid']) rfl

end Lineage

/-! ## An executed update -/

namespace UpdateExample

open Example

theorem length_parent {parent : Bytes} (h : parent ∈ parents) : parent.length = 32 := by
  simp only [parents, List.mem_cons, List.not_mem_nil, or_false] at h
  rcases h with rfl | rfl | rfl
  · rfl
  · exact length_ownerCoin _
  · exact length_ownerCoin _

/-- A coin of the owner is a child of its parent, and of no other coin. -/
theorem isSingletonChild_ownerCoin {parent : Bytes} (h : parent ∈ parents) :
    IsSingletonChild machine.hash constants parent (ownerCoin parent) := by
  have hcoin := ownerCoin_eq h (length_parent h)
  obtain ⟨ph, hph, hid⟩ := bind_elim hcoin
  exact ⟨_, _, _, ph, hph, hid⟩

theorem eq_of_isSingletonChild {parent other : Bytes} (h : parent ∈ parents)
    (hother : IsSingletonChild machine.hash constants other (ownerCoin parent)) :
    other = parent := by
  obtain ⟨_, _, _, ph, -, hid⟩ := isSingletonChild_ownerCoin h
  obtain ⟨_, _, _, ph', -, hid'⟩ := hother
  exact Clvm.atom.inj (HashOracle.coinid_inj collisionFree hid' hid).1

/-- The owner spends each coin once, and each coin has one child. -/
theorem chainRules : ChainRules machine.hash constants (pending ++ [secondExecuted]) where
  spent_once := by
    have hspent : allSpent (pending ++ [secondExecuted]) = parents.map ownerCoin := rfl
    rw [hspent]
    decide +kernel
  one_child := by
    have hspent : allSpent (pending ++ [secondExecuted]) = parents.map ownerCoin := rfl
    rw [hspent]
    intro parent id hid id' hid' hchild hchild'
    obtain ⟨p, hp, rfl⟩ := List.mem_map.1 hid
    obtain ⟨p', hp', rfl⟩ := List.mem_map.1 hid'
    rw [← eq_of_isSingletonChild hp hchild, ← eq_of_isSingletonChild hp' hchild']

/-- Only the second request fits what is executed. -/
theorem matched_second {e : Event Action} (he : e ∈ pending) {s : Step Action} (hs : s ∈ e.steps)
    (haction : s.call.action = .initiateUpdate)
    {x : ExecuteRun machine constants execution.toClvm}
    {y : InitiateRun machine constants s.call.solution} (hxy : Matched secondExecuted e x y) :
    ∃ (x : ExecuteRun machine constants execution.toClvm)
      (y : InitiateRun machine constants second.solution.toClvm),
      Matched secondExecuted secondInitiated x y := by
  simp only [pending, List.mem_cons, List.not_mem_nil, or_false] at he
  rcases he with rfl | rfl | rfl
  · obtain rfl := List.mem_singleton.1 hs
    cases haction
  · obtain rfl := List.mem_singleton.1 hs
    have hx : x.s = execution := ExecuteSolution.toClvm_injective x.solution_eq.symm
    have hy : y.s = first.solution := InitiateSolution.toClvm_injective y.solution_eq.symm
    have hdata := hxy.data_eq
    rw [hx, hy] at hdata
    exact absurd hdata (by decide)
  · obtain rfl := List.mem_singleton.1 hs
    exact ⟨x, y, hxy⟩

end UpdateExample

section Timelock

variable {S : Sentinels} {r₀ r : Registry} {events : List (Event Action)}

/-- **Time lock and lineage of updates.**  In every history, (i) every executed
update was initiated strictly earlier, for the same handle, data and height, more
than the relative height below; the initiating coin belonged to the owner of the
handle then, and the executing coin is its child and belongs to the owner now;
(ii) no update slot is closed more often than it was opened; and (iii) an update
is not executed any more once the child of its initiating coin is spent. -/
theorem update_timelock (hH : M.hash.CollisionFree)
    (hK : K.handleSlot1stCurryHash ≠ K.updateSlot1stCurryHash) (hpos : 0 < K.relativeBlockHeight)
    (h0 : Starts M.hash K S r₀) (hrun : Run (Action.run M K) r₀ events r) :
    (∀ past e future, events = past ++ e :: future → ∀ s ∈ e.steps,
      s.call.action = .executeUpdate →
      ∃ (past' between : List (Event Action)) (e' : Event Action) (s' : Step Action)
        (x : ExecuteRun M K s.call.solution) (y : InitiateRun M K s'.call.solution)
        (r₁ r₁' : Registry), past = past' ++ e' :: between ∧ s' ∈ e'.steps ∧
        s'.call.action = .initiateUpdate ∧ s.conditions = x.conditions ∧
        s'.conditions = y.conditions ∧ Matched e e' x y ∧
        Run (Action.run M K) r₀ past r₁ ∧ IsStage M K r₁ e.steps x.s.currentSlot.toClvm ∧
        Run (Action.run M K) r₀ past' r₁' ∧ IsStage M K r₁' e'.steps y.s.currentSlot.toClvm) ∧
    ((allClosed events : List Clvm) : Multiset Clvm) ≤ (allOpened M.hash K events : List Clvm) ∧
    (ChainRules M.hash K events → ∀ past e future, events = past ++ e :: future →
      ∀ parent, ∀ id ∈ e.block.info.spentCoins, IsSingletonChild M.hash K parent id →
      ∀ e' ∈ future, ∀ s ∈ e'.steps, ∀ minHeight handleHash newData,
        Call.closedUpdate s.call
          ≠ some (updateSlotValue (.atom parent) minHeight handleHash newData)) := by
  refine ⟨fun past e future he s hs ha => initiated_before hH hK hpos h0 hrun he hs ha, ?_, ?_⟩
  · obtain ⟨items, hitems, -⟩ := exists_invariant hH hK h0 hrun
    rw [← updates_balance hH hK h0 hrun hitems]
    exact Multiset.le_add_left _ _
  · intro hchain past e future he parent id hid hchild e' he' s hs minHeight handleHash newData
    exact not_executed_after_spent hrun hchain he hid hchild he' hs minHeight handleHash newData

end Timelock

/-- The update that the history executes is the one of the block before, long enough ago.  The
first one, whose coin has spent its child to ask for the second, is not executed. -/
theorem update_timelock_update : ∃ r,
    Run (Action.run UpdateExample.machine Example.constants) UpdateExample.launched
      (UpdateExample.pending ++ [UpdateExample.secondExecuted]) r ∧
    (∃ (x : ExecuteRun UpdateExample.machine Example.constants UpdateExample.execution.toClvm)
      (y : InitiateRun UpdateExample.machine Example.constants
        UpdateExample.second.solution.toClvm),
      Matched UpdateExample.secondExecuted UpdateExample.secondInitiated x y) ∧
    UpdateExample.second.updateSlot ∈ allOpened UpdateExample.machine.hash Example.constants
      (UpdateExample.pending ++ [UpdateExample.secondExecuted]) ∧
    ∀ s ∈ UpdateExample.secondExecuted.steps, ∀ minHeight handleHash newData,
      Call.closedUpdate s.call
        ≠ some (updateSlotValue (.atom UpdateExample.first.coin) minHeight handleHash newData) := by
  obtain ⟨r, hrun⟩ := UpdateExample.exists_run
  obtain ⟨hmatched, hbalance, hchild⟩ :=
    update_timelock UpdateExample.collisionFree (by decide) (by decide) UpdateExample.starts hrun
  refine ⟨r, hrun, ?_, ?_, ?_⟩
  · obtain ⟨past, between, e, s, x, y, r₁, r₂, hpast, hs, haction, -, -, hxy, -⟩ :=
      hmatched _ _ _ rfl _ (List.mem_singleton_self _) rfl
    have he : e ∈ UpdateExample.pending := by
      rw [hpast]
      exact List.mem_append_right _ (List.mem_cons_self ..)
    exact UpdateExample.matched_second he hs haction hxy
  · have hclosed : UpdateExample.second.updateSlot
        ∈ allClosed (UpdateExample.pending ++ [UpdateExample.secondExecuted]) :=
      List.mem_singleton_self _
    exact Multiset.mem_coe.1 (Multiset.mem_of_le hbalance (Multiset.mem_coe.2 hclosed))
  · exact hchild UpdateExample.chainRules
      [UpdateExample.registered, UpdateExample.firstInitiated] _ _ rfl UpdateExample.first.coin
      UpdateExample.second.coin (List.mem_singleton_self _)
      (UpdateExample.isSingletonChild_ownerCoin (by simp [UpdateExample.parents])) _
      (List.mem_singleton_self _)

end SlotMachine.Xchandles
