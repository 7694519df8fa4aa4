import SlotMachine.Onchain.Spends

/-!
# The chain refines the registry

What nodes accept of a registry is what its actions allow: every chain of blocks that
starts from a ledger with the registry on it is a history of the registry, whatever else is
spent in the blocks, in between and by whom.

* `slotsOf` — the slots of the registry among some coins.
* `Embodies` — **a ledger embodies a registry**: one coin carries its state, and the unspent
  slots are its live ones.
* `Mirrors` — a block of the registry mirrors a block of the chain.
* `block_refines` — **each block takes the registry one step**.
* `exists_run` — every chain is a history of the registry.
-/

namespace SlotMachine.Onchain

open Lineage Consensus Settlement

/-! ## Slots on a ledger -/

section Slots

variable (P : Programs) (H : HashOracle) (kinds : List Bytes)

/-- The coin is a slot, and a coin of the singleton created it. -/
def IsSlotCoin (c : Coin) : Prop :=
  IsSlot H kinds c.puzzleHash ∧ ∃ p, ChildOf H c p ∧ P.Owned H p.puzzleHash

open Classical in
/-- The puzzle hash of a slot. -/
noncomputable def slotOf? (c : Coin) : Option Bytes :=
  if IsSlotCoin P H kinds c then some c.puzzleHash else none

/-- The slots among some coins, by puzzle hash. -/
noncomputable def slotsOf : Multiset Coin →+ Multiset Bytes where
  toFun cs := cs.filterMap (slotOf? P H kinds)
  map_zero' := Multiset.filterMap_zero ..
  map_add' _ _ := Multiset.filterMap_add ..

variable {P H kinds}

theorem slotsOf_singleton {c : Coin} (h : IsSlotCoin P H kinds c) :
    slotsOf P H kinds {c} = {c.puzzleHash} := by
  have hsome : slotOf? P H kinds c = some c.puzzleHash := if_pos h
  show Multiset.filterMap (slotOf? P H kinds) (c ::ₘ 0) = {c.puzzleHash}
  rw [Multiset.filterMap_cons_some _ _ _ hsome, Multiset.filterMap_zero]
  rfl

theorem slotsOf_eq_zero {cs : Multiset Coin} (h : ∀ c ∈ cs, ¬ IsSlotCoin P H kinds c) :
    slotsOf P H kinds cs = 0 := by
  show Multiset.filterMap (slotOf? P H kinds) cs = 0
  refine Multiset.eq_zero_of_forall_notMem fun ph hph => ?_
  obtain ⟨c, hc, hslot⟩ := (Multiset.mem_filterMap _ _).1 hph
  exact absurd (hslot.symm.trans (if_neg (h c hc))) (Option.some_ne_none ph)

end Slots

section

variable {P : Programs} {M M₀ : Machine} {R : Contract M₀} {kinds : List Bytes}
  {program : R.Action → Clvm} {tree : Merkle.Tree Bytes}

/-- A spend receives nil as often as it spends a slot. -/
theorem receivedSlots_eq (hH : M.hash.CollisionFree) (hP : P.Lawful M R kinds program tree)
    {s : Spend} (hs : s.Readable M) {height timestamp : ℕ}
    (hasserts : ∀ c ∈ s.conditions, s.Asserts height timestamp c) :
    receivedSlots (P.Owned M.hash) (IsSlot M.hash kinds) s = slotsOf P M.hash kinds {s.coin} := by
  by_cases hslot : IsSlot M.hash kinds s.coin.puzzleHash
  · obtain ⟨hparent, sender, hsender, hconditions⟩ := slot_spend hH hP hs hasserts hslot
    have hmessage : slotMessage? (P.Owned M.hash) (IsSlot M.hash kinds)
        ⟨puzzlePuzzle, .nil, [.atom sender], [.atom s.coin.puzzleHash]⟩
          = some s.coin.puzzleHash := slotMessage?_eq_some.2 ⟨sender, hsender, hslot, rfl⟩
    have hreceived : receivedBy s
        = [⟨puzzlePuzzle, .nil, [.atom sender], [.atom s.coin.puzzleHash]⟩] := by
      rw [receivedBy, hconditions]
      rfl
    rw [slotsOf_singleton ⟨hslot, hparent⟩, receivedSlots, hreceived,
      List.filterMap_cons_some hmessage]
    rfl
  · rw [receivedSlots_eq_zero hslot, slotsOf_eq_zero]
    intro c hc h
    rw [Multiset.mem_singleton.1 hc] at h
    exact hslot h.1

/-- Only coins of the singleton create slots. -/
theorem slotsOf_created_eq_zero (hH : M.hash.CollisionFree) {s : Spend} (hs : s.Readable M)
    (h : ¬ P.Owned M.hash s.coin.puzzleHash) : slotsOf P M.hash kinds s.created = 0 := by
  refine slotsOf_eq_zero fun c hc hslot => ?_
  obtain ⟨-, p, hp, howned⟩ := hslot
  rw [hp.unique hH (hs.begets.child c hc)] at howned
  exact h howned

open Classical in
/-- **A turn creates the slots that its steps create.** -/
theorem Turn.Fits.slotsOf_created {t : Turn R.Action} (ht : t.Fits P M R)
    (hH : M.hash.CollisionFree) (hP : P.Lawful M R kinds program tree)
    (hs : t.spend.Readable M) :
    slotsOf P M.hash kinds t.spend.created
      = (zeroCoins t.actionConditions).filter (IsSlot M.hash kinds) := by
  have hslotOf : ∀ ph n, slotOf? P M.hash kinds ⟨t.spend.id, ph, n⟩
      = if IsSlot M.hash kinds ph then some ph else none := by
    intro ph n
    have hiff : IsSlotCoin P M.hash kinds ⟨t.spend.id, ph, n⟩ ↔ IsSlot M.hash kinds ph :=
      ⟨And.left, fun h => ⟨h, t.spend.coin, hs.id_eq, ht.owned hP⟩⟩
    simp only [slotOf?, hiff]
  obtain ⟨inner, ph, -, hph, hconditions⟩ := ht.conditions_eq
  have hlayer : slotOf? P M.hash kinds ⟨t.spend.id, ph, 1⟩ = none := by
    rw [hslotOf, if_neg]
    exact fun h => P.not_owned_of_isSlot hH h ⟨P.structHash, _, hP.struct_hash, hph⟩
  have hone : t.spend.created? (.createCoin (.atom ph) (.atom [1]) [P.layer.constants.hint])
      = some ⟨t.spend.id, ph, 1⟩ := rfl
  show Multiset.filterMap _ ((t.spend.conditions.filterMap _ : List Coin) : Multiset Coin) = _
  rw [Multiset.filterMap_coe, hconditions, List.filterMap_cons_none rfl,
    List.filterMap_cons_none rfl, List.filterMap_cons_some hone, List.filterMap_cons_none hlayer,
    List.filterMap_filterMap,
    ← Multiset.filterMap_eq_filter, zeroCoins, Multiset.filterMap_coe, List.filterMap_filterMap]
  refine congrArg _ (List.filterMap_congr fun c hc => ?_)
  -- the coins that the steps create are of amount zero
  have hpayless := ht.payless c hc
  cases c with
  | createCoin puzzleHash amount memos =>
      obtain rfl : amount = .nil := hpayless
      cases puzzleHash with
      | pair _ _ => rfl
      | atom ph' =>
          have hcreated : t.spend.created? (.createCoin (.atom ph') .nil memos)
              = some ⟨t.spend.id, ph', 0⟩ := rfl
          have hzero : (Condition.createCoin (.atom ph') .nil memos).zeroCoin? = some ph' := rfl
          rw [hcreated, hzero, Option.bind_some, Option.bind_some, hslotOf]
          by_cases hslot : IsSlot M.hash kinds ph'
          · simp [hslot, Option.guard]
          · simp [hslot, Option.guard]
  | _ => rfl

/-! ## The turns of a block -/

open Classical in
/-- **The spends of the singleton in a block are spends of the registry**, each in the state
that the one before it left. -/
theorem exists_turns (hH : M.hash.CollisionFree) (hP : P.Lawful M R kinds program tree)
    {height timestamp : ℕ} {ss : List Spend} {tip tip' : Coin}
    (hpasses : Baton.Passes (fun c => P.Owned M.hash c.puzzleHash) (P.Legit M.hash) Spend.coin
      Spend.created tip ss tip')
    (hss : ∀ s ∈ ss, s.Readable M ∧ ∀ c ∈ s.conditions, s.Asserts height timestamp c)
    {state : Clvm} (htip : P.Carries M.hash state tip) :
    ∃ (turns : List (Turn R.Action)) (state' : Clvm),
      turns.map Turn.spend = ss.filter (fun s => P.Owned M.hash s.coin.puzzleHash) ∧
      (∀ t ∈ turns, t.Fits P M R) ∧
      SlotMachine.spends R.run state (turns.map Turn.calls)
        = some (state', turns.flatMap Turn.steps) ∧
      P.Carries M.hash state' tip' := by
  induction hpasses generalizing state with
  | nil tip => exact ⟨[], state, rfl, fun _ h => absurd h List.not_mem_nil, rfl, htip⟩
  | @other s ss tip tip' hother _ ih =>
      obtain ⟨turns, state', hspends, hfits, hrun, htip'⟩ :=
        ih (fun s' hs' => hss s' (List.mem_cons_of_mem _ hs')) htip
      refine ⟨turns, state', ?_, hfits, hrun, htip'⟩
      rw [hspends, List.filter_cons_of_neg (by simpa using hother)]
  | @hand s ss next tip' howned honly _ ih =>
      obtain ⟨hs, hasserts⟩ := hss s List.mem_cons_self
      obtain ⟨calls, steps, hfit, next', hnext', honly'⟩ := exists_turn hH hP hs hasserts htip
      -- there is one legitimate coin among those created
      obtain rfl := honly.eq honly'.mem honly'.legit_tip
      obtain ⟨turns, state', hspends, hfits, hrun, htip'⟩ :=
        ih (fun s' hs' => hss s' (List.mem_cons_of_mem _ hs')) hnext'
      refine ⟨⟨s, state, calls, R.stateAfter state calls, steps⟩ :: turns, state', ?_, ?_, ?_,
        htip'⟩
      · rw [List.map_cons, hspends, List.filter_cons_of_pos (by simpa using howned)]
      · intro t ht
        rcases List.mem_cons.1 ht with rfl | ht
        · exact hfit
        · exact hfits t ht
      · exact bind_intro hfit.runs (bind_intro hrun rfl)

end

/-! ## A block -/

section

variable (P : Programs) (M : Machine) {M₀ : Machine} (R : Contract M₀) (kinds : List Bytes)

/-- **The ledger embodies the registry.**  One coin of the singleton can be spent, and it
carries the state; the unspent slots are the live ones. -/
structure Embodies (l : Ledger) (tip : Coin) (r : Registry) : Prop where
  wellFormed : l.WellFormed (ChildOf M.hash) (Orphan M.hash)
  stands : Baton.Tip (P.Legit M.hash) (fun c => ∃ state, P.Carries M.hash state c) P.launcher l tip
  carries : P.Carries M.hash r.state tip
  live : ∃ rest, r.live = slotsOf P M.hash kinds l.unspent + rest ∧
    ∀ ph ∈ rest, ¬ IsSlot M.hash kinds ph

open Classical in
/-- The block of the registry mirrors the block of the chain: its spends are those of the
singleton, in order, and the coins spent beside them are those that are neither the
singleton nor its slots. -/
structure Mirrors (b : Consensus.Block) (e : Event R.Action) (turns : List (Turn R.Action)) :
    Prop where
  spends : turns.map Turn.spend = b.spends.filter fun s => P.Owned M.hash s.coin.puzzleHash
  fits : ∀ t ∈ turns, t.Fits P M R
  calls_eq : e.block.spends = turns.map Turn.calls
  steps_eq : e.steps = turns.flatMap Turn.steps
  height_eq : e.block.info.height = b.height
  timestamp_eq : e.block.info.timestamp = b.timestamp
  spentCoins_eq : e.block.info.spentCoins = (b.spends.filter fun s =>
    ¬ P.Owned M.hash s.coin.puzzleHash ∧ ¬ IsSlot M.hash kinds s.coin.puzzleHash).map Spend.id

end

section

variable {P : Programs} {M M₀ : Machine} {R : Contract M₀} {kinds : List Bytes}
  {program : R.Action → Clvm} {tree : Merkle.Tree Bytes} {l l' : Ledger} {b : Consensus.Block}

/-- Every spend of the singleton in the block is one of the turns. -/
theorem Mirrors.exists_turn {e : Event R.Action} {turns : List (Turn R.Action)}
    (h : Mirrors P M R kinds b e turns) {s : Spend} (hs : s ∈ b.spends)
    (howned : P.Owned M.hash s.coin.puzzleHash) : ∃ t ∈ turns, t.spend = s := by
  classical
  have hmem : s ∈ turns.map Turn.spend := by
    rw [h.spends]
    exact List.mem_filter.2 ⟨hs, by simpa using howned⟩
  exact List.mem_map.1 hmem

theorem Mirrors.turn_mem {e : Event R.Action} {turns : List (Turn R.Action)}
    (h : Mirrors P M R kinds b e turns) {t : Turn R.Action} (ht : t ∈ turns) :
    t.spend ∈ b.spends := by
  classical
  have hmem : t.spend ∈ turns.map Turn.spend := List.mem_map_of_mem ht
  rw [h.spends] at hmem
  exact (List.mem_filter.1 hmem).1

/-- **Every condition of a step is fulfilled.** -/
theorem Mirrors.holds (hb : b.Valid M l l') (hH : M.hash.CollisionFree)
    (hR : R.Slotted kinds) (hP : P.Lawful M R kinds program tree) {e : Event R.Action}
    {turns : List (Turn R.Action)} (h : Mirrors P M R kinds b e turns) :
    ∀ step ∈ e.steps, ∀ c ∈ step.conditions, c.Holds e.block.info := by
  classical
  intro step hstep c hc
  rw [h.steps_eq] at hstep
  obtain ⟨t, ht, hstep⟩ := List.mem_flatMap.1 hstep
  have hmem : c ∈ t.spend.conditions :=
    (h.fits t ht).mem_conditions (mem_actionConditions.2 ⟨step, hstep, hc⟩)
  have hasserts := hb.asserts _ (h.turn_mem ht) c hmem
  cases c with
  | assertSecondsAbsolute seconds =>
      rw [Condition.Holds, h.timestamp_eq]
      exact hasserts
  | assertBeforeSecondsAbsolute seconds =>
      rw [Condition.Holds, h.timestamp_eq]
      exact hasserts
  | assertHeightAbsolute height =>
      rw [Condition.Holds, h.height_eq]
      exact hasserts
  | assertBeforeHeightAbsolute height =>
      rw [Condition.Holds, h.height_eq]
      exact hasserts
  | receiveMessage mode message sender =>
      rintro rfl
      -- somebody sent the message, and he is named by the id of his coin
      obtain ⟨s, hs, hsent⟩ := hb.exists_sender (h.turn_mem ht)
        (mem_receivedBy.2 ⟨coinPuzzle, message, sender, hmem, rfl⟩)
      obtain ⟨mode, message', receiver, hsend, heq⟩ := mem_sentBy.1 hsent
      obtain ⟨rfl, rfl, hsender, -⟩ := Message.mk.inj heq
      refine ⟨s.id, ?_, by simpa [commitment, coinPuzzle] using hsender⟩
      rw [h.spentCoins_eq]
      refine List.mem_map_of_mem (List.mem_filter.2 ⟨hs, ?_⟩)
      simp only [decide_eq_true_eq]
      constructor
      · -- the singleton sends no such messages
        intro howned
        obtain ⟨t', ht', rfl⟩ := h.exists_turn hs howned
        obtain ⟨step', hstep', hc'⟩ := mem_actionConditions.1 ((h.fits t' ht').send_mem hsend)
        rcases hR.anonymous (spend_mem (h.fits t' ht').runs step' hstep') _ hc' with hmode | hmode
        · exact absurd hmode (by decide)
        · exact absurd hmode (by decide)
      · -- and slots send none at all
        intro hslot
        obtain ⟨-, _, -, hconditions⟩ :=
          slot_spend hH hP (hb.readable s hs) (hb.asserts s hs) hslot
        rw [hconditions] at hsend
        simp at hsend
  | _ => trivial

/-! ### What a block does to the slots -/

/-- A sum over some elements, when the others count nothing. -/
theorem sum_map_filter {α β : Type*} [AddCommMonoid β] (p : α → Prop) [DecidablePred p] (f : α → β)
    {as : List α} (h : ∀ a ∈ as, ¬ p a → f a = 0) :
    (as.map f).sum = ((as.filter fun a => p a).map f).sum := by
  induction as with
  | nil => rfl
  | cons a as ih =>
      have ih' := ih fun a' ha' => h a' (List.mem_cons_of_mem _ ha')
      by_cases ha : p a
      · rw [List.filter_cons_of_pos (by simpa using ha), List.map_cons, List.map_cons,
          List.sum_cons, List.sum_cons, ih']
      · rw [List.filter_cons_of_neg (by simpa using ha), List.map_cons, List.sum_cons, ih',
          h a List.mem_cons_self ha, zero_add]

/-- The effects of all turns. -/
theorem total_flatMap (turns : List (Turn R.Action)) :
    Effect.total ((turns.flatMap Turn.steps).map Step.effect)
      = ⟨(turns.map fun t => slotSpends t.actionConditions).sum,
        (turns.map fun t => zeroCoins t.actionConditions).sum⟩ := by
  induction turns with
  | nil => rfl
  | cons t turns ih =>
      have hconsumed := congrArg Effect.consumed ih
      have hcreated := congrArg Effect.created ih
      obtain ⟨hspends, hcreates⟩ := effect_actionConditions t
      rw [List.flatMap_cons, List.map_append]
      refine congrArg₂ Effect.mk ?_ ?_
      · refine (Effect.consumed_total_append _ _).trans ?_
        rw [← hspends, hconsumed, List.map_cons, List.sum_cons]
      · refine (Effect.created_total_append _ _).trans ?_
        rw [← hcreates, hcreated, List.map_cons, List.sum_cons]

section Settle

variable {e : Event R.Action} {turns : List (Turn R.Action)}

/-- **The slots that a block spends are those that its steps send to.** -/
theorem Mirrors.consumed_eq (h : Mirrors P M R kinds b e turns) (hb : b.Valid M l l')
    (hH : M.hash.CollisionFree) (hM : M₀.hash = M.hash) (hR : R.Slotted kinds)
    (hP : P.Lawful M R kinds program tree) :
    (b.spends.map fun s => slotsOf P M.hash kinds {s.coin}).sum
      = (Effect.total (e.steps.map Step.effect)).consumed := by
  classical
  have hreceived : b.spends.map (fun s => slotsOf P M.hash kinds {s.coin})
      = b.spends.map (receivedSlots (P.Owned M.hash) (IsSlot M.hash kinds)) :=
    List.map_congr_left fun s hs =>
      (receivedSlots_eq hH hP (hb.readable s hs) (hb.asserts s hs)).symm
  have hsent : turns.map (sentSlots (P.Owned M.hash) (IsSlot M.hash kinds) ∘ Turn.spend)
      = turns.map fun t => slotSpends t.actionConditions := by
    refine List.map_congr_left fun t ht => ?_
    have hfit := h.fits t ht
    rw [Function.comp_apply, sentSlots_eq (hfit.owned hP), hfit.slotSpends_eq]
    intro ph hph
    rw [hfit.slotSpends_eq, (effect_actionConditions t).1] at hph
    obtain ⟨effect, heffect, hmem⟩ := Effect.mem_consumed_total.1 hph
    obtain ⟨step, hstep, rfl⟩ := List.mem_map.1 heffect
    rw [← hM]
    exact hR.spends (spend_mem hfit.runs step hstep) ph hmem
  rw [hreceived, ← hb.slots_eq, sum_map_filter (fun s => P.Owned M.hash s.coin.puzzleHash) _
    fun s _ hs => sentSlots_eq_zero hs, ← h.spends, List.map_map, hsent, h.steps_eq, total_flatMap]

open Classical in
/-- **The slots that a block creates are those that its steps create.** -/
theorem Mirrors.created_eq (h : Mirrors P M R kinds b e turns) (hb : b.Valid M l l')
    (hH : M.hash.CollisionFree) (hP : P.Lawful M R kinds program tree) :
    (b.spends.map fun s => slotsOf P M.hash kinds s.created).sum
      = (Effect.total (e.steps.map Step.effect)).created.filter (IsSlot M.hash kinds) := by
  have hcreated : turns.map ((fun s => slotsOf P M.hash kinds s.created) ∘ Turn.spend)
      = turns.map fun t => (zeroCoins t.actionConditions).filter (IsSlot M.hash kinds) :=
    List.map_congr_left fun t ht =>
      (h.fits t ht).slotsOf_created hH hP (hb.readable _ (h.turn_mem ht))
  have hsum : ∀ ts : List (Turn R.Action),
      (ts.map fun t => (zeroCoins t.actionConditions).filter (IsSlot M.hash kinds)).sum
        = ((ts.map fun t => zeroCoins t.actionConditions).sum).filter (IsSlot M.hash kinds) := by
    intro ts
    induction ts with
    | nil => rfl
    | cons t ts ih => rw [List.map_cons, List.sum_cons, ih, List.map_cons, List.sum_cons,
        Multiset.filter_add]
  rw [sum_map_filter (fun s => P.Owned M.hash s.coin.puzzleHash) _
    fun s hs hnot => slotsOf_created_eq_zero hH (hb.readable s hs) hnot, ← h.spends, List.map_map,
    hcreated, hsum, h.steps_eq, total_flatMap]

end Settle

/-- **Each block takes the registry one step.** -/
theorem block_refines (hH : M.hash.CollisionFree) (hM : M₀.hash = M.hash) (hR : R.Slotted kinds)
    (hP : P.Lawful M R kinds program tree) {tip : Coin} {r : Registry}
    (h : Embodies P M kinds l tip r) (hb : b.Valid M l l') :
    ∃ (e : Event R.Action) (turns : List (Turn R.Action)) (r' : Registry) (tip' : Coin),
      Mirrors P M R kinds b e turns ∧ BlockStep R.run r e.block e.steps r' ∧
        Embodies P M kinds l' tip' r' := by
  classical
  obtain ⟨tip', hpasses, htip'⟩ : ∃ tip', Baton.Passes (fun c => P.Owned M.hash c.puzzleHash)
      (P.Legit M.hash) Spend.coin Spend.created tip b.spends tip' ∧
        Baton.Tip (P.Legit M.hash) (fun c => ∃ state, P.Carries M.hash state c) P.launcher l'
          tip' := by
    refine SingletonTopLayer.advance hH hP.topLayer hP.launcher_id hb h.wellFormed h.stands ?_
    rintro s hs - ⟨state, hstate⟩
    obtain ⟨calls, steps, -, next, hnext, honly⟩ :=
      exists_turn hH hP (hb.readable s hs) (hb.asserts s hs) hstate
    exact ⟨next, ⟨_, hnext⟩, honly⟩
  obtain ⟨turns, state', hspends, hfits, hrun, hcarries⟩ := exists_turns hH hP hpasses
    (fun s hs => ⟨hb.readable s hs, hb.asserts s hs⟩) h.carries
  set e : Event R.Action := ⟨⟨⟨b.height, b.timestamp, (b.spends.filter fun s =>
    ¬ P.Owned M.hash s.coin.puzzleHash ∧ ¬ IsSlot M.hash kinds s.coin.puzzleHash).map Spend.id⟩,
    turns.map Turn.calls⟩, turns.flatMap Turn.steps⟩ with he
  have hmirrors : Mirrors P M R kinds b e turns := ⟨hspends, hfits, rfl, rfl, rfl, rfl, rfl⟩
  obtain ⟨rest, hlive, hrest⟩ := h.live
  set created := (Effect.total (e.steps.map Step.effect)).created with hcreated
  -- coins of amount zero that are no slots are never spent by a message
  refine ⟨e, turns, ⟨state', slotsOf P M.hash kinds l'.unspent
    + (rest + created.filter fun ph => ¬ IsSlot M.hash kinds ph)⟩, tip', hmirrors,
    ⟨hrun, ?_, hmirrors.holds hb hH hR hP⟩,
    ⟨hb.wellFormed hH h.wellFormed, htip', hcarries, _, rfl, ?_⟩⟩
  · have hsettles := hb.spends.settles.map (slotsOf P M.hash kinds)
    have hrewards : slotsOf P M.hash kinds (b.rewards : Multiset Coin) = 0 :=
      slotsOf_eq_zero fun c hc hslot => by
        obtain ⟨-, p, hp, -⟩ := hslot
        exact (ancestry hH).orphan c p (hb.rewards_orphan c hc) hp
    simp only [Settles, Effect.total, List.map_map, map_add, hrewards, add_zero] at hsettles
    have hconsumed := hmirrors.consumed_eq hb hH hM hR hP
    have hnew := hmirrors.created_eq hb hH hP
    have hsum : slotsOf P M.hash kinds l'.unspent
        + (Effect.total (e.steps.map Step.effect)).consumed
        = slotsOf P M.hash kinds l.unspent + created.filter (IsSlot M.hash kinds) := by
      rw [← hconsumed, hcreated, ← hnew]
      exact hsettles
    show _ + _ = r.live + created
    rw [hlive, add_right_comm, hsum, add_add_add_comm, Multiset.filter_add_not]
  · intro ph hph
    rcases Multiset.mem_add.1 hph with hph | hph
    · exact hrest ph hph
    · exact (Multiset.mem_filter.1 hph).2

/-! ## A chain -/

/-- Each chain of blocks takes the registry along. -/
theorem exists_run (hH : M.hash.CollisionFree) (hM : M₀.hash = M.hash) (hR : R.Slotted kinds)
    (hP : P.Lawful M R kinds program tree) {l₀ : Ledger} {tip₀ : Coin} {r₀ : Registry}
    (h₀ : Embodies P M kinds l₀ tip₀ r₀) {blocks : List Consensus.Block}
    (h : Follows M l₀ blocks l) :
    ∃ (events : List (Event R.Action)) (r : Registry) (tip : Coin),
      Run R.run r₀ events r ∧
      List.Forall₂ (fun b e => ∃ turns, Mirrors P M R kinds b e turns) blocks events ∧
      Embodies P M kinds l tip r := by
  induction h with
  | start => exact ⟨[], r₀, tip₀, .start, .nil, h₀⟩
  | @next past l l' b _ hb ih =>
      obtain ⟨events, r, tip, hrun, hmirrors, hr⟩ := ih
      obtain ⟨e, turns, r', tip', hmirror, hstep, hr'⟩ := block_refines hH hM hR hP hr hb
      refine ⟨events ++ [e], r', tip', .next hrun hstep, ?_, hr'⟩
      exact List.rel_append hmirrors (.cons ⟨turns, hmirror⟩ .nil)

end

end SlotMachine.Onchain
