import SlotMachine.Xchandles.Disposition
import SlotMachine.Xchandles.Ownership
import SlotMachine.Xchandles.RefundCompleteness

/-!
# XCHandles: what a valid precommit coin is good for

A refund treats a coin as valid if its CAT maker, its price and its handle are
right and the handle is not held, whichever of the two pricing puzzles of the
state the coin commits to.  A registration wants the first of them and a handle
without a slot; an expiry wants the second, and the expiration of the slot.

* `Shaped` — the slots that actions write; `exists_listed_shaped` — every history
  keeps them in this shape, and in one list.
* `Valid`, `Fits` — a coin that a refund treats as valid, and whose committed
  pricing is that for the status of its handle.
* `Valid.exists_registration`, `Valid.exists_expiry` — **the solutions**.
* `valid_usable` — **a valid coin that fits can be used**, and whatever coin it is,
  a refund can take it.
* `valid_not_usable` — a valid coin that does not fit, and that no registration
  and no expiry can use.
-/

namespace SlotMachine.Xchandles

open Settlement SortedList
open Rewriting (forall_live)

/-! ## Slots in good shape -/

/-- A handle slot as the actions write it: its counter is an atom, and its
expiration an integer. -/
structure Shaped (v : Clvm) : Prop where
  counter : ∃ c w, v = .pair (.atom c) w
  expiration : ∃ e : ℤ, expirationOf v = some (.ofInt e)

/-- A slot in good shape, from its place in the list. -/
theorem Shaped.eq_handleSlotValue {v : Clvm} (h : Shaped v) {k l r : Clvm}
    (hnode : nodeOf v = some ⟨k, l, r⟩) :
    ∃ c e d, v = handleSlotValue (.atom c) k (.pair l r) (.ofInt e) d := by
  obtain ⟨c, w, rfl⟩ := h.counter
  obtain ⟨e, he⟩ := h.expiration
  unfold nodeOf at hnode
  split at hnode
  · rename_i c' k' l' r' rest heq
    obtain ⟨rfl, rfl, rfl⟩ := Node.mk.inj (Option.some.inj hnode)
    obtain ⟨rfl, rfl⟩ := Clvm.pair.inj heq
    cases rest with
    | atom b => simp [expirationOf] at he
    | pair e' d =>
        obtain rfl : e' = .ofInt e := Option.some.inj he
        exact ⟨c, e, d, rfl⟩
  · simp at hnode

section

variable {M : Machine} {K : Constants} {S : Sentinels}

/-- Every action writes slots in good shape. -/
theorem Explains.shaped {action : Action} {truth solution : Clvm} {cs : List Condition}
    {f : Footprint} (h : Explains M K truth solution action cs f) {m : Clvm × Clvm}
    (hm : m ∈ f.moves) (hshape : Shaped m.1) : Shaped m.2 where
  counter := by
    obtain ⟨c, x, x', -, h2⟩ := (h.lawful.bumps m hm).parts
    exact ⟨_, _, h2⟩
  expiration := by
    obtain ⟨e, he⟩ := hshape.expiration
    cases h with
    | register r =>
        rcases List.mem_pair.1 hm with rfl | rfl <;> exact ⟨e, (expirationOf_congr ..).trans he⟩
    | expire r =>
        obtain rfl := List.mem_singleton.1 hm
        obtain ⟨x, y, -, -, hexpiration⟩ := Clvm.add_eq_some.1 r.expiration_eq
        exact ⟨_, congrArg some hexpiration⟩
    | extend r =>
        obtain rfl := List.mem_singleton.1 hm
        obtain ⟨x, y, -, -, hexpiration⟩ := Clvm.add_eq_some.1 r.expiration_eq
        exact ⟨_, congrArg some hexpiration⟩
    | oracle r =>
        obtain rfl := List.mem_singleton.1 hm
        exact ⟨e, (expirationOf_counter_congr ..).trans he⟩
    | initiateUpdate r =>
        obtain rfl := List.mem_singleton.1 hm
        exact ⟨e, he⟩
    | executeUpdate r =>
        obtain rfl := List.mem_singleton.1 hm
        exact ⟨e, he⟩
    | refund r => exact ⟨e, (r.keeps hm).2.trans he⟩
    | delegatedState d sender => exact absurd hm List.not_mem_nil

/-- The slot that a registration adds is in good shape. -/
theorem Explains.shaped_inserted {action : Action} {truth solution : Clvm} {cs : List Condition}
    {f : Footprint} (h : Explains M K truth solution action cs f) {v : Clvm}
    (hv : v ∈ f.inserted) : Shaped v := by
  cases h with
  | register r =>
      obtain rfl := List.mem_singleton.1 hv
      obtain ⟨x, y, -, -, hexpiration⟩ := Clvm.add_eq_some.1 r.expiration_eq
      exact ⟨⟨[], _, rfl⟩, _, congrArg some hexpiration⟩
  | expire r => exact absurd hv List.not_mem_nil
  | extend r => exact absurd hv List.not_mem_nil
  | oracle r => exact absurd hv List.not_mem_nil
  | initiateUpdate r => exact absurd hv List.not_mem_nil
  | executeUpdate r => exact absurd hv List.not_mem_nil
  | refund r =>
      rw [RefundRun.footprint] at hv
      split at hv <;> exact absurd hv List.not_mem_nil
  | delegatedState d sender => exact absurd hv List.not_mem_nil

/-- **The slots of a history** are in good shape and form one list. -/
theorem exists_listed_shaped (hH : M.hash.CollisionFree)
    (hK : K.handleSlot1stCurryHash ≠ K.updateSlot1stCurryHash) {r₀ r : Registry}
    {events : List (Event Action)} (h0 : Starts M.hash K S r₀) (hlow : Shaped S.lowSlot)
    (hhigh : Shaped S.highSlot) (hrun : Run (Action.run M K) r₀ events r) :
    ∃ items l, Listed M K S r items l ∧ ∀ v ∈ handlesOf items, Shaped v := by
  have hall : ∃ items, Behind M.hash K items r ∧ ListInvariant S (allRegistered events) items ∧
      ∀ v ∈ handlesOf items, Shaped v := by
    induction hrun with
    | start =>
        refine ⟨_, h0, listInvariant_sentinels S, fun v hv => ?_⟩
        have hslots : handlesOf {.handle S.lowSlot, .handle S.highSlot}
            = {S.lowSlot, S.highSlot} := rfl
        rw [hslots, Multiset.insert_eq_cons, Multiset.mem_cons, Multiset.mem_singleton] at hv
        rcases hv with rfl | rfl
        · exact hlow
        · exact hhigh
    | next _ hstep ih =>
        obtain ⟨items, hitems, hinv, hshaped⟩ := ih
        obtain ⟨fs, hfs⟩ := exists_footprints hstep
        obtain ⟨items', hitems', hsettles⟩ := exists_settlement hH hK hstep hfs hitems
        have hnext := hinv.step hfs hsettles
        refine ⟨items', hitems', by rwa [allRegistered, List.flatMap_append,
          List.flatMap_singleton], ?_⟩
        have hbumps := bumps_rewrites hfs.lawful
        refine forall_live (fun g hg => (hbumps g hg).rank_eq) (settles_rewrites hsettles) hshaped
          (fun g hg v hv => ?_) fun g hg m hm => ?_
        · obtain ⟨f, hf, rfl⟩ := List.mem_map.1 hg
          obtain ⟨s, -, hexplains⟩ := hfs.exists_mem hf
          exact hexplains.shaped_inserted hv
        · obtain ⟨f, hf, rfl⟩ := List.mem_map.1 hg
          obtain ⟨s, -, hexplains⟩ := hfs.exists_mem hf
          exact hexplains.shaped hm
  obtain ⟨items, hitems, hinv, hshaped⟩ := hall
  obtain ⟨l, hnodes, hlinked⟩ := hinv.exists_doublyLinked
  exact ⟨items, l, ⟨hitems, hnodes, hlinked⟩, hshaped⟩

end

/-! ## Valid coins -/

/-- A coin that a refund treats as valid, with what the refund reveals of it. -/
structure Valid (M : Machine) (S : Sentinels) (K : Constants) (state : XchandlesState)
    (items : Multiset Item) (info : BlockInfo) (o : Opening) (coin : PrecommitCoin) where
  maker : Clvm
  makerHash : Bytes
  hashes_maker : M.hash.treeHash maker = some makerHash
  maker_eq : state.catMakerPuzzleHash = .atom makerHash
  commits_maker : o.value.catMakerHash = .atom makerHash
  makes : Makes M K maker o.value.catMakerSolution o coin.puzzleHash
  program : Clvm
  programHash : Bytes
  hashes_program : M.hash.treeHash program = some programHash
  commits_program : o.value.pricingHash = .atom programHash
  program_eq : state.pricingPuzzleHash = .atom programHash ∨
    state.expiredHandlePricingPuzzleHash = .atom programHash
  pricing : HandlePricingSolution
  commits_pricing : o.value.pricingSolution = pricing.toClvm
  handle_eq : pricing.handle = o.value.handle
  priced : HandlePricingOutput
  runs_program : runPricing M program pricing.toClvm = some priced
  amount_eq : priced.totalPrice = .atom coin.amount
  handleHash : Bytes
  hashes_handle : M.hash.treeHashAtom o.value.handle = some handleHash
  above_low : S.low < handleHash
  below_high : handleHash < S.high
  not_held : ∀ v ∈ handlesOf items, keyOf v = some (.atom handleHash) → ∀ e,
    expirationOf v = some e → ¬ (Condition.assertBeforeSecondsAbsolute e).Holds info

section

variable {M : Machine} {K : Constants} {S : Sentinels} {state : XchandlesState}
variable {items : Multiset Item} {info : BlockInfo} {o : Opening} {coin : PrecommitCoin}

/-- The committed pricing is that for the status of the handle. -/
inductive Fits (v : Valid M S K state items info o coin) : Prop where
  /-- A handle without a slot, priced as one that has no expiration yet. -/
  | free (hpricing : state.pricingPuzzleHash = .atom v.programHash)
      (hfresh : v.pricing.currentExpiration = .nil)
      (hfree : ∀ w ∈ handlesOf items, keyOf w ≠ some (.atom v.handleHash))
  /-- A handle with a slot, priced as an expired one with the expiration of the slot. -/
  | expired (hpricing : state.expiredHandlePricingPuzzleHash = .atom v.programHash) (w : Clvm)
      (hw : w ∈ handlesOf items) (hkey : keyOf w = some (.atom v.handleHash))
      (hexpiration : expirationOf w = some v.pricing.currentExpiration)

/-- The time has come to use the coin, it is for a number of seconds, and it
commits to two launcher ids. -/
structure Ready (v : Valid M S K state items info o coin) : Prop where
  reached : (Condition.assertSecondsAbsolute v.pricing.buyTime).Holds info
  registeredTime : ∃ t, v.priced.registeredTime = .atom t
  data : ∃ owner resolved, o.value.data = .pair (.atom owner) (.atom resolved)

/-- A registration or an expiry can use the coin, with the approval of singletons
that have the given inner puzzle hashes. -/
def Usable (M : Machine) (K : Constants) (r : Registry) (info : BlockInfo) (coin : PrecommitCoin)
    (ownerInner resolvedInner : Bytes) : Prop :=
  (∃ (s : RegisterSolution) (cs : List Condition), s.ownerInnerPuzzleHash = .atom ownerInner ∧
    s.resolvedInnerPuzzleHash = .atom resolvedInner ∧
    Accepts (Action.run M K) r info ⟨.register, s.toClvm⟩ cs ∧ coin.send payOut ∈ cs) ∨
  ∃ (s : ExpireSolution) (cs : List Condition), s.newOwnerInnerPuzzleHash = .atom ownerInner ∧
    s.newResolvedInnerPuzzleHash = .atom resolvedInner ∧
    Accepts (Action.run M K) r info ⟨.expire, s.toClvm⟩ cs ∧ coin.send payOut ∈ cs

/-! ## The two solutions -/

/-- What a solution with the parts of a valid coin commits to. -/
theorem Valid.value_eq (v : Valid M S K state items info o coin) {pricingHash : Clvm}
    {owner resolved : Bytes} (hpricing : pricingHash = .atom v.programHash)
    (hdata : o.value.data = .pair (.atom owner) (.atom resolved)) :
    PrecommitValue.mk state.catMakerPuzzleHash o.value.catMakerSolution pricingHash v.pricing.toClvm
      v.pricing.handle o.value.secret (.pair (.atom owner) (.atom resolved)) = o.value := by
  rw [v.maker_eq, ← v.commits_maker, hpricing, ← v.commits_program, ← v.commits_pricing,
    v.handle_eq, ← hdata]

/-- A larger table has the same slots behind a registry. -/
theorem Behind.mono {H H' : HashOracle} {r : Registry} (h : Behind H K items r) (hle : H ≤ H') :
    Behind H' K items r := by
  unfold Behind Represents at h ⊢
  rw [← h]
  refine Multiset.map_congr rfl fun i hi => ?_
  obtain ⟨ph, -, hcoin⟩ := Represents.exists_image h hi
  rw [hcoin]
  cases i with
  | handle v => exact HashOracle.slotCoin_mono hle hcoin
  | update v => exact HashOracle.slotCoin_mono hle hcoin

/-- Every place in the list has a slot. -/
theorem Listed.exists_slot {r : Registry} {l : List (Node Bytes)} (h : Listed M K S r items l)
    {n : Node Bytes} (hn : n ∈ l) :
    ∃ v ∈ handlesOf items, nodeOf v = some ⟨.atom n.key, .atom n.left, .atom n.right⟩ := by
  have hmem : written atoms n ∈ nodesOf items := by
    rw [h.nodes]
    exact Multiset.mem_coe.2 (List.mem_map_of_mem hn)
  obtain ⟨v, hv, hnode⟩ := Multiset.mem_map.1 hmem
  exact ⟨v, hv, hnode⟩

/-- The slots of the list are live. -/
theorem Listed.mem_live {r : Registry} {l : List (Node Bytes)} (h : Listed M K S r items l)
    {v : Clvm} {ph : Bytes} (hv : v ∈ handlesOf items)
    (hph : M.hash.slotCoin K.handleSlot1stCurryHash v = some ph) : ph ∈ r.live := by
  obtain ⟨ph', hph', hcoin⟩ := h.behind.exists_image (Xchandles.mem_handlesOf.1 hv)
  rwa [← Option.some.inj (hcoin.symm.trans hph)]

/-- Both slots of a pair of live slots are live. -/
theorem Listed.pair_le {r : Registry} {l : List (Node Bytes)} (h : Listed M K S r items l)
    {v w : Clvm} {ph ph' : Bytes} (hv : v ∈ handlesOf items) (hw : w ∈ handlesOf items)
    (hne : v ≠ w) (hph : M.hash.slotCoin K.handleSlot1stCurryHash v = some ph)
    (hph' : M.hash.slotCoin K.handleSlot1stCurryHash w = some ph') : ph ::ₘ ph' ::ₘ 0 ≤ r.live := by
  have hitems : (Item.handle v ::ₘ Item.handle w ::ₘ 0) ≤ items := by
    have hnodup : (Item.handle v ::ₘ Item.handle w ::ₘ 0).Nodup := by
      simp [hne]
    rw [Multiset.le_iff_subset hnodup]
    intro i hi
    rcases Multiset.mem_cons.1 hi with rfl | hi
    · exact Xchandles.mem_handlesOf.1 hv
    · rw [Multiset.mem_singleton.1 hi]
      exact Xchandles.mem_handlesOf.1 hw
  have hpair := (Represents.cons (f := Item.coin M.hash K) (a := .handle w) hph'
    (represents_zero _)).cons (a := .handle v) hph
  exact hpair.image_le h.behind hitems

/-- **A registration**: a handle without a slot has a gap in the list. -/
theorem Valid.exists_registration (v : Valid M S K state items info o coin) (hH : M.hash.Total)
    {r : Registry} {l : List (Node Bytes)} (hl : Listed M K S r items l)
    (hshaped : ∀ w ∈ handlesOf items, Shaped w) (hstate : r.state = state.toClvm)
    (hpricing : state.pricingPuzzleHash = .atom v.programHash)
    (hfresh : v.pricing.currentExpiration = .nil)
    (hfree : ∀ w ∈ handlesOf items, keyOf w ≠ some (.atom v.handleHash)) (hready : Ready v)
    (ownerInner resolvedInner : Bytes) : Usable M K r info coin ownerInner resolvedInner := by
  obtain ⟨owner, resolved, hdata⟩ := hready.data
  obtain ⟨t, ht⟩ := hready.registeredTime
  obtain ⟨b, hb, -, -⟩ := Reading.le_of_reached hready.reached
  -- the two neighbours
  have hgap : ∀ n ∈ l, n.key ≠ v.handleHash := by
    intro n hn hkey
    obtain ⟨w, hw, hnode⟩ := hl.exists_slot hn
    apply hfree w hw
    rw [keyOf_of_nodeOf hnode, hkey]
  obtain ⟨x, hx, y, hy, hxh, hhy, hxy, hyx⟩ := hl.linked.exists_gap v.above_low v.below_high hgap
  obtain ⟨left, hleft, hleftNode⟩ := hl.exists_slot hx
  obtain ⟨right, hright, hrightNode⟩ := hl.exists_slot hy
  rw [hxy] at hleftNode
  rw [hyx] at hrightNode
  obtain ⟨cl, el, dl, rfl⟩ := (hshaped left hleft).eq_handleSlotValue hleftNode
  obtain ⟨cr, er, dr, rfl⟩ := (hshaped right hright).eq_handleSlotValue hrightNode
  -- the hashes
  obtain ⟨inner, hinner, hmaker⟩ := v.makes
  obtain ⟨ownerCoin, hownerCoin⟩ := hH.singletonPuzzleHash K.singletonModHash
    K.singletonLauncherPuzzleHash (.atom owner) ownerInner
  obtain ⟨resolvedCoin, hresolvedCoin⟩ := hH.singletonPuzzleHash K.singletonModHash
    K.singletonLauncherPuzzleHash (.atom resolved) resolvedInner
  let s : RegisterSolution :=
    { handleHash := .atom v.handleHash, leftValue := .atom x.key, rightValue := .atom y.key,
      catMaker := ⟨v.maker, o.value.catMakerSolution⟩, handlePricing := ⟨v.program, v.pricing⟩,
      left := ⟨.atom cl, .atom x.left, .pair (.ofInt el) dl⟩,
      right := ⟨.atom cr, .atom y.right, .pair (.ofInt er) dr⟩,
      ownerInnerPuzzleHash := .atom ownerInner, resolvedInnerPuzzleHash := .atom resolvedInner,
      other := ⟨⟨.atom owner, .atom resolved⟩, o.refundPuzzleHashHash, o.value.secret⟩ }
  have hvalue : s.precommitValue state = o.value := v.value_eq hpricing hdata
  let expiration : Clvm := .ofInt (intFromBytes b + intFromBytes t)
  obtain ⟨spentLeft, hspentLeft⟩ := hH.slotCoin K.handleSlot1stCurryHash
    (s.leftSlot (.atom cl) (.atom y.key))
  obtain ⟨spentRight, hspentRight⟩ := hH.slotCoin K.handleSlot1stCurryHash
    (s.rightSlot (.atom cr) (.atom x.key))
  obtain ⟨createdNew, hnew⟩ := hH.slotCoin K.handleSlot1stCurryHash (s.newSlot expiration)
  obtain ⟨createdLeft, hleft'⟩ := hH.slotCoin K.handleSlot1stCurryHash
    (s.leftSlot (.ofInt (intFromBytes cl + 1)) (.atom v.handleHash))
  obtain ⟨createdRight, hright'⟩ := hH.slotCoin K.handleSlot1stCurryHash
    (s.rightSlot (.ofInt (intFromBytes cr + 1)) (.atom v.handleHash))
  let run : RegisterRun M K (.pair .nil r.state) s.toClvm :=
    { t := ⟨.nil, state⟩, s := s, truth_eq := by rw [hstate]; rfl, solution_eq := rfl,
      priced := v.priced, runs_pricing := v.runs_program, handleHash := v.handleHash,
      left := x.key, right := y.key, catMakerHash := v.makerHash, pricingHash := v.programHash,
      handleHash_eq := rfl, left_eq := rfl, right_eq := rfl,
      hashes_handle := by rw [v.handle_eq]; exact v.hashes_handle,
      fresh := hfresh, above_left := hxh, below_right := hhy, catMaker_eq := v.maker_eq,
      hashes_catMaker := v.hashes_maker, pricing_eq := hpricing,
      hashes_pricing := v.hashes_program, inner := inner,
      hashes_inner := by rw [hvalue]; exact hinner,
      precommitCoin := coin.puzzleHash, runs_catMaker := hmaker, owner := ownerCoin,
      hashes_owner := hownerCoin, resolved := resolvedCoin, hashes_resolved := hresolvedCoin,
      expiration := expiration, expiration_eq := by rw [hb, ht]; exact Clvm.add_atom b t,
      leftCounter := cl, leftCounter_eq := rfl, rightCounter := cr, rightCounter_eq := rfl,
      spentLeft := spentLeft, spends_left := hspentLeft, spentRight := spentRight,
      spends_right := hspentRight, createdNew := createdNew, creates_new := hnew,
      createdLeft := createdLeft, creates_left := hleft', createdRight := createdRight,
      creates_right := hright' }
  refine Or.inl ⟨s, run.conditions, rfl, rfl, ⟨⟨_, register_eq_some.2 ⟨run, rfl⟩, r.state, rfl⟩,
    ?_, run.holds hready.reached⟩, run.send_mem.2 ⟨rfl, rfl, v.amount_eq.symm⟩⟩
  rw [run.slotSpends_conditions]
  refine hl.pair_le hleft hright (fun h => ?_) hspentLeft hspentRight
  have hkey : x.key = y.key := Clvm.atom.inj (Option.some.inj (congrArg keyOf h))
  exact absurd (hxh.trans hhy) (hkey ▸ lt_irrefl _)

/-- **An expiry**: the slot of an expired handle is replaced. -/
theorem Valid.exists_expiry (v : Valid M S K state items info o coin) (hH : M.hash.Total)
    {r : Registry} {l : List (Node Bytes)} (hl : Listed M K S r items l)
    (hshaped : ∀ w ∈ handlesOf items, Shaped w) (hstate : r.state = state.toClvm)
    (hpricing : state.expiredHandlePricingPuzzleHash = .atom v.programHash) {w : Clvm}
    (hw : w ∈ handlesOf items) (hkey : keyOf w = some (.atom v.handleHash))
    (hexpiration : expirationOf w = some v.pricing.currentExpiration) (hready : Ready v)
    (ownerInner resolvedInner : Bytes) : Usable M K r info coin ownerInner resolvedInner := by
  obtain ⟨owner, resolved, hdata⟩ := hready.data
  obtain ⟨t, ht⟩ := hready.registeredTime
  obtain ⟨b, hb, -, -⟩ := Reading.le_of_reached hready.reached
  -- the slot, which has expired
  obtain ⟨n, hn, hnode⟩ := hl.exists_node hw
  obtain ⟨c, e, d, rfl⟩ := (hshaped w hw).eq_handleSlotValue hnode
  have hnkey : n.key = v.handleHash := Clvm.atom.inj (Option.some.inj hkey)
  have hcurrent : v.pricing.currentExpiration = .ofInt e := (Option.some.inj hexpiration).symm
  have hpast : (Condition.assertSecondsAbsolute v.pricing.currentExpiration).Holds info := by
    rw [hcurrent]
    exact Condition.after_of_not_before (v.not_held _ hw hkey _ rfl)
  -- the hashes
  obtain ⟨inner, hinner, hmaker⟩ := v.makes
  obtain ⟨ownerCoin, hownerCoin⟩ := hH.singletonPuzzleHash K.singletonModHash
    K.singletonLauncherPuzzleHash (.atom owner) ownerInner
  obtain ⟨resolvedCoin, hresolvedCoin⟩ := hH.singletonPuzzleHash K.singletonModHash
    K.singletonLauncherPuzzleHash (.atom resolved) resolvedInner
  let s : ExpireSolution :=
    { pricing := ⟨v.program, v.pricing⟩, catMaker := ⟨v.maker, o.value.catMakerSolution⟩,
      other := ⟨⟨.atom owner, .atom resolved⟩, o.refundPuzzleHashHash, o.value.secret⟩,
      counter := .atom c, neighbors := .pair (.atom n.left) (.atom n.right), oldRest := d,
      newOwnerInnerPuzzleHash := .atom ownerInner,
      newResolvedInnerPuzzleHash := .atom resolvedInner }
  have hvalue : s.precommitValue state = o.value := v.value_eq hpricing hdata
  have hbefore : s.slot v.handleHash (.atom c) v.pricing.currentExpiration d
      = handleSlotValue (.atom c) (.atom n.key) (.pair (.atom n.left) (.atom n.right)) (.ofInt e)
        d := by
    rw [hnkey, hcurrent]
    rfl
  let expiration : Clvm := .ofInt (intFromBytes t + intFromBytes b)
  obtain ⟨spent, hspent⟩ := hH.slotCoin K.handleSlot1stCurryHash
    (s.slot v.handleHash (.atom c) v.pricing.currentExpiration d)
  obtain ⟨created, hcreated⟩ := hH.slotCoin K.handleSlot1stCurryHash
    (s.slot v.handleHash (.ofInt (intFromBytes c + 1)) expiration
      (.pair (.atom owner) (.atom resolved)))
  have happroves : ∃ approval, expireResolvedApproval M.hash K s.other.newRest
      s.newResolvedInnerPuzzleHash coin.puzzleHash = some approval := by
    by_cases hsame : owner = resolved
    · refine ⟨[], bind_intro (a := true) ?_ rfl⟩
      exact Clvm.eq_eq_some.2 ⟨_, _, rfl, rfl, by simp [hsame]⟩
    · refine ⟨_, bind_intro (a := false) ?_ (bind_intro hresolvedCoin rfl)⟩
      exact Clvm.eq_eq_some.2 ⟨_, _, rfl, rfl, by simp [hsame]⟩
  obtain ⟨approval, happroval⟩ := happroves
  let run : ExpireRun M K (.pair .nil r.state) s.toClvm :=
    { t := ⟨.nil, state⟩, s := s, truth_eq := by rw [hstate]; rfl, solution_eq := rfl,
      catMakerHash := v.makerHash, pricingHash := v.programHash,
      hashes_catMaker := v.hashes_maker, catMaker_eq := v.maker_eq,
      hashes_pricing := v.hashes_program, pricing_eq := hpricing, handleHash := v.handleHash,
      hashes_handle := by rw [v.handle_eq]; exact v.hashes_handle,
      priced := v.priced, runs_pricing := v.runs_program, inner := inner,
      hashes_inner := by rw [hvalue]; exact hinner,
      precommitCoin := coin.puzzleHash, runs_catMaker := hmaker, owner := ownerCoin,
      hashes_owner := hownerCoin, counter := c, counter_eq := rfl, spent := spent,
      spends := hspent, expiration := expiration,
      expiration_eq := by rw [hb, ht]; exact Clvm.add_atom t b,
      created := created, creates := hcreated, resolvedApproval := approval,
      approves := happroval }
  refine Or.inr ⟨s, run.conditions, rfl, rfl, ⟨⟨_, expire_eq_some.2 ⟨run, rfl⟩, r.state, rfl⟩,
    ?_, run.holds hready.reached hpast⟩, run.send_mem.2 ⟨rfl, rfl, v.amount_eq.symm⟩⟩
  rw [run.slotSpends_conditions, Multiset.singleton_le]
  rw [hbefore] at hspent
  exact hl.mem_live hw hspent

/-! ## Every valid coin that fits -/

/-- A registration, an expiry or a refund can take the coin. -/
def Takeable (M : Machine) (K : Constants) (r : Registry) (info : BlockInfo)
    (coin : PrecommitCoin) : Prop :=
  ∃ (c : Call Action) (cs : List Condition), Accepts (Action.run M K) r info c cs ∧
    ((c.action = .register ∨ c.action = .expire) ∧ coin.send payOut ∈ cs ∨
      c.action = .refund ∧ coin.send refunded ∈ cs)

/-- **What a valid coin is good for.**  At every state that a history reaches and
at every time: a registration or an expiry can use a coin that a refund treats as
valid, if its committed pricing is that for the status of its handle and the time
has come.  And whatever coin it is, one of the three actions can take it. -/
theorem valid_usable {M₀ : Machine} {H : HashOracle} {other : Bytes → List Clvm → Option Clvm}
    {fuel : ℕ} (hH₀ : M₀.hash.CollisionFree)
    (hK : K.handleSlot1stCurryHash ≠ K.updateSlot1stCurryHash) {r₀ r : Registry}
    {events : List (Event Action)} (h0 : Starts M₀.hash K S r₀) (hlow : Shaped S.lowSlot)
    (hhigh : Shaped S.highSlot) (hrun : Run (Action.run M₀ K) r₀ events r) (hle : M₀.hash ≤ H)
    (hH : H.Total) {c p x : Bytes} (hstate : state = ⟨.atom c, .atom p, .atom x⟩)
    (hr : r.state = state.toClvm) :
    ∃ items, Behind M₀.hash K items r ∧
      (∀ (info : BlockInfo) (o : Opening) (coin : PrecommitCoin)
        (v : Valid (.clvm H other (fuel + 1)) S K state items info o coin), Fits v → Ready v →
        ∀ ownerInner resolvedInner,
          Usable (.clvm H other (fuel + 1)) K r info coin ownerInner resolvedInner) ∧
      ∀ (info : BlockInfo) (coin : PrecommitCoin),
        H.treeHash (.quoted (.atom coin.puzzleHash)) ≠ H.treeHash (.atom [3]) →
        Takeable (.clvm H other (fuel + 1)) K r info coin := by
  obtain ⟨items, l, hl₀, hshaped⟩ := exists_listed_shaped hH₀ hK h0 hlow hhigh hrun
  have hl : Listed (.clvm H other (fuel + 1)) K S r items l :=
    ⟨hl₀.behind.mono hle, hl₀.nodes, hl₀.linked⟩
  refine ⟨items, hl₀.behind, fun info o coin v hfits hready ownerInner resolvedInner => ?_,
    fun info coin hne => ?_⟩
  · cases hfits with
    | free hpricing hfresh hfree =>
        exact v.exists_registration hH hl hshaped hr hpricing hfresh hfree hready ownerInner
          resolvedInner
    | expired hpricing w hw hkey hexpiration =>
        exact v.exists_expiry hH hl hshaped hr hpricing hw hkey hexpiration hready ownerInner
          resolvedInner
  · subst hstate
    obtain ⟨program, solution, d, hd, hdc, hprogram⟩ :=
      exists_foreign_program hH c coin.puzzleHash hne
    obtain ⟨s, cs, haccepts, hsend⟩ := exists_refund_of_program hH hr hd hdc hprogram info
    exact ⟨_, cs, haccepts, Or.inr ⟨rfl, hsend⟩⟩

end

/-! ## Examples -/

namespace Example

/-- The slots of the market. -/
def marketItems : Multiset Item := {.handle (lowSlot .nil), .handle highSlot}

theorem market_behind {H : HashOracle} (hle : saleMachine.hash ≤ H) {state : Clvm} :
    Behind H constants marketItems ⟨state, market.live⟩ := by
  have hbehind : Behind saleMachine.hash constants marketItems ⟨state, market.live⟩ := market_starts
  exact hbehind.mono hle

theorem mem_marketItems {v : Clvm} (h : v ∈ handlesOf marketItems) :
    v = lowSlot .nil ∨ v = highSlot := by
  have hslots : handlesOf marketItems = {lowSlot .nil, highSlot} := rfl
  rwa [hslots, Multiset.insert_eq_cons, Multiset.mem_cons, Multiset.mem_singleton] at h

/-- The handle of the sale has no slot at the market. -/
theorem market_free {v : Clvm} (h : v ∈ handlesOf marketItems) :
    keyOf v ≠ some (.atom handleHash) := by
  have hne : handleHash ≠ bytes32 0 ∧ handleHash ≠ bytes32 255 := by decide +kernel
  intro hkey
  rcases mem_marketItems h with rfl | rfl
  · exact hne.1 (Clvm.atom.inj (Option.some.inj hkey)).symm
  · exact hne.2 (Clvm.atom.inj (Option.some.inj hkey)).symm

theorem lowSlot_shaped : Shaped sentinels.lowSlot := ⟨⟨[], _, rfl⟩, 1000, rfl⟩

theorem highSlot_shaped : Shaped sentinels.highSlot := ⟨⟨[], _, rfl⟩, 1000, rfl⟩

/-! ### A coin that can be used -/

/-- The state of a registry that sells free handles. -/
def freshState : XchandlesState := ⟨.atom makerHash, .atom pricingHash, .atom (bytes32 12)⟩

def freshMarket : Registry := ⟨freshState.toClvm, market.live⟩

def freshPricing : HandlePricingSolution := ⟨.ofInt 500, .nil, .atom [104], .nil⟩

def freshOpening : Opening where
  refundPuzzleHashHash := .atom (bytes32 21)
  value := ⟨.atom makerHash, .nil, .atom pricingHash, freshPricing.toClvm, .atom [104],
    .atom (bytes32 22), .pair (.atom (bytes32 20)) (.atom (bytes32 20))⟩

def freshInner : Bytes := precommitInnerHash constants (bytes32 21) freshOpening.value

def freshCoin : PrecommitCoin := ⟨defaultCatHash (bytes32 30) (bytes32 31) freshInner, intToBytes 7⟩

theorem fresh_makes : Makes (.clvm .sha256 (fun _ _ => none) 20) constants makerProgram .nil
    freshOpening freshCoin.puzzleHash := by
  refine ⟨freshInner, ?_, ?_⟩
  · exact precommitInnerPuzzleHash_mono (HashOracle.ofSkeletons_le_sha256 _)
      (precommitInnerPuzzleHash_ofSkeletons fun _ ht => ht)
  · have hmaker : defaultCatMaker .sha256 (bytes32 30) (bytes32 31) freshInner
        = some (defaultCatHash (bytes32 30) (bytes32 31) freshInner) :=
      defaultCatMaker_mono (HashOracle.ofSkeletons_le_sha256 _)
        (defaultCatMaker_ofSkeletons fun _ ht => ht)
    have hrun : runCatMaker (.clvm .sha256 (fun _ _ => none) 20) makerProgram freshInner .nil
        = some (defaultCatHash (bytes32 30) (bytes32 31) freshInner) :=
      runCatMaker_default 6 hmaker
    dsimp only [freshCoin]
    exact hrun

theorem treeHash_sha256 (v : Clvm) :
    HashOracle.sha256.treeHash v = some (Skeleton.ofClvm v).hash :=
  HashOracle.treeHash_mono (HashOracle.ofSkeletons_le_sha256 [.ofClvm v])
    (HashOracle.treeHash_ofSkeletons (List.mem_singleton_self _))

def freshValid : Valid (.clvm .sha256 (fun _ _ => none) 20) sentinels constants freshState
    marketItems ⟨100, 600, []⟩ freshOpening freshCoin where
  maker := makerProgram
  makerHash := makerHash
  hashes_maker := treeHash_sha256 makerProgram
  maker_eq := rfl
  commits_maker := rfl
  makes := fresh_makes
  program := pricingProgram
  programHash := pricingHash
  hashes_program := treeHash_sha256 pricingProgram
  commits_program := rfl
  program_eq := Or.inl rfl
  pricing := freshPricing
  commits_pricing := rfl
  handle_eq := rfl
  priced := ⟨.ofInt 7, .ofInt 366⟩
  runs_program := runPricing_quoted ..
  amount_eq := rfl
  handleHash := handleHash
  hashes_handle := treeHash_sha256 (.atom [104])
  above_low := by decide +kernel
  below_high := by decide +kernel
  not_held v hv hkey := absurd hkey (market_free hv)

theorem reached_500 : (Condition.assertSecondsAbsolute (.ofInt 500)).Holds ⟨100, 600, []⟩ :=
  (Condition.holds_assertSecondsAbsolute (n := 500) (by decide)).2 (by decide : 500 ≤ 600)

theorem freshReady : Ready freshValid where
  reached := by
    dsimp only [freshValid, freshPricing]
    exact reached_500
  registeredTime := ⟨_, rfl⟩
  data := ⟨_, _, rfl⟩

/-! ### A coin that cannot be used -/

section

variable {H : HashOracle} (hle : saleMachine.hash ≤ H)

include hle in
theorem sale_makes : Makes (.clvm H (fun _ _ => none) 20) constants makerProgram .nil
    saleOpening saleCoin.puzzleHash := by
  refine ⟨saleInner, precommitInnerPuzzleHash_mono hle sale.hashes_inner, ?_⟩
  have hmaker : defaultCatMaker H (bytes32 30) (bytes32 31) saleInner
      = some (defaultCatHash (bytes32 30) (bytes32 31) saleInner) :=
    defaultCatMaker_mono hle (defaultCatMaker_ofSkeletons (part (by simp [saleParts])))
  have hrun : runCatMaker (.clvm H (fun _ _ => none) 20) makerProgram saleInner .nil
      = some (defaultCatHash (bytes32 30) (bytes32 31) saleInner) :=
    runCatMaker_default 6 hmaker
  dsimp only [saleCoin]
  exact hrun

/-- The coin of the sale, at the market where its handle has no slot. -/
def saleValid : Valid (.clvm H (fun _ _ => none) 20) sentinels constants salesState marketItems
    ⟨100, 600, []⟩ saleOpening saleCoin where
  maker := makerProgram
  makerHash := makerHash
  hashes_maker := HashOracle.treeHash_mono hle sale.hashes_catMaker
  maker_eq := rfl
  commits_maker := rfl
  makes := sale_makes hle
  program := pricingProgram
  programHash := pricingHash
  hashes_program := HashOracle.treeHash_mono hle sale.hashes_pricing
  commits_program := rfl
  program_eq := Or.inr rfl
  pricing := saleSolution.pricing.solution
  commits_pricing := rfl
  handle_eq := rfl
  priced := ⟨.ofInt 7, .ofInt 366⟩
  runs_program := runPricing_quoted ..
  amount_eq := rfl
  handleHash := handleHash
  hashes_handle := HashOracle.treeHashAtom_mono hle sale.hashes_handle
  above_low := by decide +kernel
  below_high := by decide +kernel
  not_held v hv hkey := absurd hkey (market_free hv)

theorem saleReady : Ready (saleValid hle) where
  reached := by
    dsimp only [saleValid, saleSolution]
    exact reached_500
  registeredTime := ⟨_, rfl⟩
  data := ⟨_, _, rfl⟩

include hle

theorem market_bindsInner (hH : H.CollisionFree) :
    salesState.BindsInner (.clvm H (fun _ _ => none) 20) := by
  intro maker d hd hstate
  obtain rfl : makerHash = d := Clvm.atom.inj hstate
  have heq : maker = makerProgram :=
    HashOracle.treeHash_inj hH hd (HashOracle.treeHash_mono hle sale.hashes_catMaker)
  rw [heq]
  exact (isCatMaker_defaultCatMakerProgram H _ 6 _ _).bindsInner hH

/-- A registration wants the other pricing puzzle, and an expiry a slot. -/
theorem sale_not_usable (hH : H.CollisionFree) (info : BlockInfo)
    (ownerInner resolvedInner : Bytes) :
    ¬ Usable (.clvm H (fun _ _ => none) 20) constants market info saleCoin ownerInner
      resolvedInner := by
  have hbinds := market_bindsInner hle hH
  have hcoin : BuiltFor (.clvm H (fun _ _ => none) 20) constants salesState saleOpening saleCoin :=
    ⟨makerProgram, makerHash, .nil, HashOracle.treeHash_mono hle sale.hashes_catMaker, rfl,
      sale_makes hle⟩
  have ht {t : XchandlesStateTruth} (h : Clvm.pair .nil market.state = t.toClvm) :
      t.state = salesState := by
    have htruth : (XchandlesStateTruth.mk .nil salesState).toClvm = t.toClvm := h
    rw [← XchandlesStateTruth.toClvm_injective htruth]
  intro h
  rcases h with ⟨s, cs, -, -, haccepts, hpay⟩ | ⟨s, cs, -, -, haccepts, hpay⟩
  · obtain ⟨truth', hruns, -⟩ := haccepts.runs
    obtain ⟨x, hx⟩ := register_eq_some.1 hruns
    obtain ⟨-, rfl⟩ := Prod.mk.inj hx
    have hopening := hcoin.unique hH hbinds (congrArg _ (ht x.truth_eq))
      (x.builtFor (x.send_mem.1 hpay).2.1)
    have hpricing : Clvm.atom pricingHash = x.t.state.pricingPuzzleHash :=
      congrArg (fun o : Opening => o.value.pricingHash) hopening
    rw [ht x.truth_eq] at hpricing
    have hne : pricingHash ≠ bytes32 11 := by decide +kernel
    exact hne (Clvm.atom.inj hpricing)
  · obtain ⟨truth', hruns, -⟩ := haccepts.runs
    obtain ⟨x, hx⟩ := expire_eq_some.1 hruns
    obtain ⟨-, rfl⟩ := Prod.mk.inj hx
    have hopening := hcoin.unique hH hbinds (congrArg _ (ht x.truth_eq))
      (x.builtFor (x.send_mem.1 hpay).2.1)
    have hhandle : Clvm.atom [104] = x.s.pricing.solution.handle :=
      congrArg (fun o : Opening => o.value.handle) hopening
    have hhash := x.hashes_handle
    rw [← hhandle] at hhash
    have hkey : handleHash = x.handleHash :=
      Option.some.inj ((HashOracle.treeHashAtom_mono hle sale.hashes_handle).symm.trans hhash)
    -- the slot of the handle would be one of the two sentinels
    have hlive : x.spent ∈ market.live := Multiset.mem_of_le haccepts.live (mem_slotSpends (by
      simp [ExpireRun.conditions, expireConditions, spendCoin]))
    have hbehind : Behind H constants marketItems market := market_behind hle
    obtain ⟨i, hi, hi'⟩ := hbehind.exists_of_mem hlive
    have heq : Item.handle x.before = i :=
      Item.coin_injOnDomain hH (by decide) (a := .handle x.before) x.spends hi'
    rw [← heq] at hi
    refine market_free (mem_handlesOf.2 hi) ?_
    rw [hkey]
    rfl

end

end Example

/-- **A valid coin that cannot be used.**  The coin commits to the pricing puzzle
for expired handles, and its handle has no slot.  A refund treats it as valid and
the time to use it has come, but there is no registration that consumes it, as it
does not commit to the other pricing puzzle, and no expiry, whatever else is
hashed and whenever. -/
theorem valid_not_usable : ∃ (H : HashOracle) (K : Constants) (S : Sentinels) (r : Registry)
    (state : XchandlesState) (items : Multiset Item) (info : BlockInfo) (o : Opening)
    (coin : PrecommitCoin), H.CollisionFree ∧ K.handleSlot1stCurryHash ≠ K.updateSlot1stCurryHash ∧
    Shaped S.lowSlot ∧ Shaped S.highSlot ∧ r.state = state.toClvm ∧
    ∀ H' : HashOracle, H ≤ H' → H'.CollisionFree →
      Starts H' K S r ∧ Behind H' K items r ∧ state.BindsInner (.clvm H' (fun _ _ => none) 20) ∧
      (∃ v : Valid (.clvm H' (fun _ _ => none) 20) S K state items info o coin, Ready v) ∧
      ∀ (info' : BlockInfo) (ownerInner resolvedInner : Bytes),
        ¬ Usable (.clvm H' (fun _ _ => none) 20) K r info' coin ownerInner resolvedInner := by
  refine ⟨Example.saleMachine.hash, Example.constants, Example.sentinels, Example.market,
    Example.salesState, Example.marketItems, ⟨100, 600, []⟩, Example.saleOpening, Example.saleCoin,
    Example.saleMachine_collisionFree, by decide, Example.lowSlot_shaped, Example.highSlot_shaped,
    rfl, fun H hle hH => ?_⟩
  exact ⟨Example.market_behind hle, Example.market_behind hle, Example.market_bindsInner hle hH,
    ⟨_, Example.saleReady hle⟩, Example.sale_not_usable hle hH⟩

/-- A coin for a free handle can be used. -/
theorem valid_usable_fresh : Usable (.clvm .sha256 (fun _ _ => none) 20) Example.constants
    Example.freshMarket ⟨100, 600, []⟩ Example.freshCoin (Example.bytes32 23)
    (Example.bytes32 23) := by
  have hbehind : Behind Example.saleMachine.hash Example.constants Example.marketItems
      Example.freshMarket := Example.market_behind (HashOracle.le_refl _)
  have hle : Example.saleMachine.hash ≤ .sha256 := HashOracle.ofSkeletons_le_sha256 _
  obtain ⟨items, hitems, husable, -⟩ := @valid_usable Example.constants Example.sentinels
    Example.freshState Example.saleMachine .sha256 (fun _ _ => none) 19
    Example.saleMachine_collisionFree (by decide) Example.freshMarket Example.freshMarket []
    hbehind Example.lowSlot_shaped Example.highSlot_shaped .start hle HashOracle.sha256_total
    Example.makerHash Example.pricingHash (Example.bytes32 12) rfl rfl
  obtain rfl := hitems.unique Example.saleMachine_collisionFree (by decide) hbehind
  exact husable _ _ _ Example.freshValid
    (.free rfl rfl fun w hw => Example.market_free hw) Example.freshReady _ _

end SlotMachine.Xchandles
