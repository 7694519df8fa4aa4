import SlotMachine.Xchandles.RefundSafety

/-!
# XCHandles: what becomes of a precommit coin

At any state and time, `register`, `expire` and an honest `refund` exclude each
other for one precommit coin: `register` needs the handle to be free, `expire`
needs its slot to be expired, and a refund of a coin with nothing else wrong
needs its slot to be unexpired.

* `Takes` — the three ways to consume a coin.
* `RegisterRun.held_of_invalid`, `ExpireRun.held_of_invalid` — a coin that is
  good for a registration or an expiry is invalid only because its handle is held.
* `disposition_exclusive` — **at most one of the three actions can take a coin.**
-/

namespace SlotMachine.Xchandles

open Settlement SortedList

/-! ## Ways to consume a coin -/

/-- A call consumes a precommit coin: it registers or takes over a handle with
it, or it refunds it with the CAT maker of the state revealed. -/
inductive Takes (state : XchandlesState) (coin : PrecommitCoin) :
    Call Action → List Condition → Prop where
  | register (solution : Clvm) (cs : List Condition) (h : coin.send payOut ∈ cs) :
      Takes state coin ⟨.register, solution⟩ cs
  | expire (solution : Clvm) (cs : List Condition) (h : coin.send payOut ∈ cs) :
      Takes state coin ⟨.expire, solution⟩ cs
  | refund (s : RefundSolution) (cs : List Condition) (h : coin.send refunded ∈ cs)
      (hown : s.catMaker.puzzleHash = state.catMakerPuzzleHash) :
      Takes state coin ⟨.refund, s.toClvm⟩ cs

section

variable {M : Machine} {K : Constants} {truth solution : Clvm} {coin : PrecommitCoin}
variable {live : Multiset Bytes} {info : BlockInfo}

/-- A coin that is good for a registration is invalid only if its handle is held. -/
theorem RegisterRun.held_of_invalid (r : RegisterRun M K truth solution)
    (hamount : .atom coin.amount = r.priced.totalPrice)
    (h : Invalid M K r.t.state live info r.opening coin) :
    Held M.hash K live info r.s.handlePricing.solution.handle := by
  cases h with
  | catMaker h => exact absurd rfl h
  | amount h =>
      exact absurd ⟨_, _, r.priced, r.pricing_eq, r.hashes_pricing, r.runs_pricing,
        hamount.symm⟩ h
  | pricing h => exact absurd rfl h.1
  | handle h => exact absurd ⟨r.s.handlePricing.solution, rfl, rfl⟩ h
  | held h => exact h

/-- A coin that is good for an expiry is invalid only if its handle is held. -/
theorem ExpireRun.held_of_invalid (r : ExpireRun M K truth solution)
    (hamount : .atom coin.amount = r.priced.totalPrice)
    (h : Invalid M K r.t.state live info r.opening coin) :
    Held M.hash K live info r.s.pricing.solution.handle := by
  cases h with
  | catMaker h => exact absurd rfl h
  | amount h =>
      exact absurd ⟨_, _, r.priced, r.pricing_eq, r.hashes_pricing, r.runs_pricing,
        hamount.symm⟩ h
  | pricing h => exact absurd rfl h.2
  | handle h => exact absurd ⟨r.s.pricing.solution, rfl, rfl⟩ h
  | held h => exact h

end

/-! ## The slots of a registry in good order -/

/-- The live handle slots are one list. -/
structure Listed (M : Machine) (K : Constants) (S : Sentinels) (r : Registry)
    (items : Multiset Item) (l : List (Node Bytes)) : Prop where
  behind : Behind M.hash K items r
  nodes : nodesOf items = (l.map (written atoms) : List (Option (Node Clvm)))
  linked : DoublyLinked S.low S.high l

section

variable {M : Machine} {K : Constants} {S : Sentinels} {r : Registry} {items : Multiset Item}
variable {l : List (Node Bytes)}

theorem Listed.nodup_keys (h : Listed M K S r items l) : (keysOf items).Nodup :=
  nodup_keysOf h.nodes h.linked

/-- A value whose slot is live is one of the handle slots. -/
theorem Listed.mem_handlesOf (h : Listed M K S r items l) (hH : M.hash.CollisionFree)
    (hK : K.handleSlot1stCurryHash ≠ K.updateSlot1stCurryHash) {v : Clvm} {ph : Bytes}
    (hv : M.hash.slotCoin K.handleSlot1stCurryHash v = some ph) (hph : ph ∈ r.live) :
    v ∈ handlesOf items := by
  obtain ⟨i, hi, hcoin⟩ := h.behind.exists_of_mem hph
  have heq : Item.handle v = i := Item.coin_injOnDomain hH hK (a := .handle v) hv hcoin
  rw [← heq] at hi
  exact Xchandles.mem_handlesOf.2 hi

/-- A handle slot has a place in the list. -/
theorem Listed.exists_node (h : Listed M K S r items l) {v : Clvm} (hv : v ∈ handlesOf items) :
    ∃ n ∈ l, nodeOf v = some ⟨.atom n.key, .atom n.left, .atom n.right⟩ := by
  have hmem : nodeOf v ∈ nodesOf items := Multiset.mem_map_of_mem nodeOf hv
  rw [h.nodes] at hmem
  obtain ⟨n, hn, hwritten⟩ := List.mem_map.1 (Multiset.mem_coe.1 hmem)
  exact ⟨n, hn, hwritten.symm⟩

/-- Two handle slots with one key are one slot. -/
theorem Listed.eq_of_keyOf (h : Listed M K S r items l) {v w : Clvm} (hv : v ∈ handlesOf items)
    (hw : w ∈ handlesOf items) (hkey : keyOf v = keyOf w) : v = w := by
  by_contra hne
  obtain ⟨rest, hrest⟩ := Multiset.exists_cons_of_mem hv
  rw [hrest] at hw
  have hw' : w ∈ rest := (Multiset.mem_cons.1 hw).resolve_left (Ne.symm hne)
  have hnodup := h.nodup_keys
  rw [keysOf, hrest, Multiset.map_cons, Multiset.nodup_cons] at hnodup
  exact hnodup.1 (by rw [hkey]; exact Multiset.mem_map_of_mem keyOf hw')

/-- A held handle has a slot in the list that has not expired. -/
theorem Listed.of_held (h : Listed M K S r items l) (hH : M.hash.CollisionFree)
    (hK : K.handleSlot1stCurryHash ≠ K.updateSlot1stCurryHash) {info : BlockInfo} {handle : Clvm}
    {hh : Bytes} (hheld : Held M.hash K r.live info handle)
    (hhash : M.hash.treeHashAtom handle = some hh) :
    ∃ v ∈ handlesOf items, keyOf v = some (.atom hh) ∧ ∃ e, expirationOf v = some e ∧
      (Condition.assertBeforeSecondsAbsolute e).Holds info := by
  obtain ⟨v, ph, hh', e, hv, hph, hhash', hkey, he, hbefore⟩ := hheld
  obtain rfl := Option.some.inj (hhash.symm.trans hhash')
  exact ⟨v, h.mem_handlesOf hH hK hv hph, hkey, e, he, hbefore⟩

/-- **A registration needs its handle to be free.** -/
theorem Listed.free_of_register (h : Listed M K S r items l) (hH : M.hash.CollisionFree)
    (hK : K.handleSlot1stCurryHash ≠ K.updateSlot1stCurryHash) {truth solution : Clvm}
    (x : RegisterRun M K truth solution) (hlive : slotSpends x.conditions ≤ r.live) {v : Clvm}
    (hv : v ∈ handlesOf items) : keyOf v ≠ some (.atom x.handleHash) := by
  have hspent : ∀ ph, spendCoin ph ∈ x.conditions → ph ∈ r.live := fun ph hph =>
    Multiset.mem_of_le hlive (mem_slotSpends hph)
  -- both neighbours are in the list, and they point at each other
  have hleft := h.mem_handlesOf hH hK x.spends_left (hspent _ (by
    simp [RegisterRun.conditions, registerConditions]))
  have hright := h.mem_handlesOf hH hK x.spends_right (hspent _ (by
    simp [RegisterRun.conditions, registerConditions]))
  obtain ⟨a, ha, hanode⟩ := h.exists_node hleft
  obtain ⟨b, hb, hbnode⟩ := h.exists_node hright
  obtain ⟨n, hn, hnode⟩ := h.exists_node hv
  rw [RegisterSolution.leftSlot, nodeOf_handleSlotWith, x.left_eq] at hanode
  rw [RegisterSolution.rightSlot, nodeOf_handleSlotWith, x.right_eq] at hbnode
  obtain ⟨hakey, -, haright⟩ := Node.mk.inj (Option.some.inj hanode)
  obtain ⟨hbkey, -, -⟩ := Node.mk.inj (Option.some.inj hbnode)
  have hakey' := Clvm.atom.inj hakey
  have haright' := Clvm.atom.inj haright
  have hbkey' := Clvm.atom.inj hbkey
  rw [keyOf_of_nodeOf hnode]
  intro hkey
  exact h.linked.not_mem_of_gap ha hb (haright'.symm.trans hbkey') (hakey' ▸ x.above_left)
    (hbkey' ▸ x.below_right) n hn (Clvm.atom.inj (Option.some.inj hkey))

/-- **An expiry needs the slot of its handle to be expired.** -/
theorem Listed.expired_of_expire (h : Listed M K S r items l) (hH : M.hash.CollisionFree)
    (hK : K.handleSlot1stCurryHash ≠ K.updateSlot1stCurryHash) {truth solution : Clvm}
    (x : ExpireRun M K truth solution) (hlive : slotSpends x.conditions ≤ r.live)
    {info : BlockInfo} (hholds : ∀ c ∈ x.conditions, c.Holds info) :
    x.before ∈ handlesOf items ∧
      (Condition.assertSecondsAbsolute x.s.pricing.solution.currentExpiration).Holds info := by
  refine ⟨h.mem_handlesOf hH hK x.spends (Multiset.mem_of_le hlive (mem_slotSpends ?_)),
    hholds _ ?_⟩ <;>
  simp [ExpireRun.conditions, expireConditions, spendCoin]

end

/-! ## Exclusive disposition -/

section

variable {M : Machine} {K : Constants} {S : Sentinels} {r : Registry} {items : Multiset Item}
variable {l : List (Node Bytes)} {state : XchandlesState} {coin : PrecommitCoin}
variable {info info' : BlockInfo}

/-- A coin cannot be good both for a registration and for an expiry. -/
theorem not_register_and_expire (hl : Listed M K S r items l) (hH : M.hash.CollisionFree)
    (hK : K.handleSlot1stCurryHash ≠ K.updateSlot1stCurryHash) {truth solution solution' : Clvm}
    (x : RegisterRun M K truth solution) (y : ExpireRun M K truth solution')
    (hmaker : x.t.state.BindsInner M) (hx : slotSpends x.conditions ≤ r.live)
    (hy : slotSpends y.conditions ≤ r.live) (hyholds : ∀ c ∈ y.conditions, c.Holds info)
    (hxpay : coin.send payOut ∈ x.conditions) (hypay : coin.send payOut ∈ y.conditions) :
    False := by
  obtain ⟨-, hph, -⟩ := x.send_mem.1 hxpay
  obtain ⟨-, hph', -⟩ := y.send_mem.1 hypay
  obtain htt : x.t = y.t :=
    XchandlesStateTruth.toClvm_injective (x.truth_eq.symm.trans y.truth_eq)
  have hopening := (x.builtFor hph).unique hH hmaker (by rw [htt]) (y.builtFor hph')
  have hhandle : x.s.handlePricing.solution.handle = y.s.pricing.solution.handle :=
    congrArg (fun o : Opening => o.value.handle) hopening
  have hhash := x.hashes_handle
  rw [hhandle, y.hashes_handle] at hhash
  refine hl.free_of_register hH hK x hx (hl.expired_of_expire hH hK y hy hyholds).1 ?_
  rw [ExpireRun.before, ExpireSolution.slot, keyOf_handleSlotValue, Option.some.inj hhash]

/-- An honest refund of a coin that a registration takes would need its handle to be held. -/
theorem not_register_and_refund (hl : Listed M K S r items l) (hH : M.hash.CollisionFree)
    (hK : K.handleSlot1stCurryHash ≠ K.updateSlot1stCurryHash) {truth solution solution' : Clvm}
    (x : RegisterRun M K truth solution) (y : RefundRun M K truth solution')
    (hmaker : y.t.state.BindsInner M)
    (hown : y.s.catMaker.puzzleHash = y.t.state.catMakerPuzzleHash)
    (hx : slotSpends x.conditions ≤ r.live) (hy : slotSpends y.conditions ≤ r.live)
    (hyholds : ∀ c ∈ y.conditions, c.Holds info)
    (hxpay : coin.send payOut ∈ x.conditions) (hypay : coin.send refunded ∈ y.conditions) :
    False := by
  obtain ⟨-, hph, hamount⟩ := x.send_mem.1 hxpay
  obtain htt : x.t = y.t :=
    XchandlesStateTruth.toClvm_injective (x.truth_eq.symm.trans y.truth_eq)
  have hcoin := x.builtFor hph
  rw [htt] at hcoin
  have hinvalid := y.invalid hH hmaker hcoin hypay hown
    (fun ph hph => Multiset.mem_of_le hy hph) hyholds
  rw [← htt] at hinvalid
  obtain ⟨v, hv, hkey, -⟩ := hl.of_held hH hK (x.held_of_invalid hamount hinvalid) x.hashes_handle
  exact hl.free_of_register hH hK x hx hv hkey

/-- An honest refund of a coin that an expiry takes would need the slot of its
handle to be unexpired. -/
theorem not_expire_and_refund (hl : Listed M K S r items l) (hH : M.hash.CollisionFree)
    (hK : K.handleSlot1stCurryHash ≠ K.updateSlot1stCurryHash) {truth solution solution' : Clvm}
    (x : ExpireRun M K truth solution) (y : RefundRun M K truth solution')
    (hmaker : y.t.state.BindsInner M)
    (hown : y.s.catMaker.puzzleHash = y.t.state.catMakerPuzzleHash)
    (hx : slotSpends x.conditions ≤ r.live) (hy : slotSpends y.conditions ≤ r.live)
    (hxholds : ∀ c ∈ x.conditions, c.Holds info) (hyholds : ∀ c ∈ y.conditions, c.Holds info')
    (htime : info.timestamp = info'.timestamp)
    (hxpay : coin.send payOut ∈ x.conditions) (hypay : coin.send refunded ∈ y.conditions) :
    False := by
  obtain ⟨-, hph, hamount⟩ := x.send_mem.1 hxpay
  obtain htt : x.t = y.t :=
    XchandlesStateTruth.toClvm_injective (x.truth_eq.symm.trans y.truth_eq)
  have hcoin := x.builtFor hph
  rw [htt] at hcoin
  have hinvalid := y.invalid hH hmaker hcoin hypay hown
    (fun ph hph => Multiset.mem_of_le hy hph) hyholds
  rw [← htt] at hinvalid
  obtain ⟨v, hv, hkey, e, he, hbefore⟩ :=
    hl.of_held hH hK (x.held_of_invalid hamount hinvalid) x.hashes_handle
  obtain ⟨hslot, hafter⟩ := hl.expired_of_expire hH hK x hx hxholds
  -- the held slot is the one the expiry takes, and it has expired
  have heq : v = x.before := hl.eq_of_keyOf hv hslot (hkey.trans (by
    rw [ExpireRun.before, ExpireSolution.slot, keyOf_handleSlotValue]))
  rw [heq, ExpireRun.before, ExpireSolution.slot, expirationOf_handleSlotValue] at he
  obtain rfl := Option.some.inj he
  refine Condition.not_before_and_after hafter ?_
  rw [Condition.Holds, htime]
  exact hbefore

/-- What a call that consumes a coin computed. -/
inductive Consumes (M : Machine) (K : Constants) (state : XchandlesState) (coin : PrecommitCoin)
    (truth solution : Clvm) : Action → List Condition → Prop where
  | register (x : RegisterRun M K truth solution) (hstate : x.t.state = state)
      (hpay : coin.send payOut ∈ x.conditions) :
      Consumes M K state coin truth solution .register x.conditions
  | expire (x : ExpireRun M K truth solution) (hstate : x.t.state = state)
      (hpay : coin.send payOut ∈ x.conditions) :
      Consumes M K state coin truth solution .expire x.conditions
  | refund (x : RefundRun M K truth solution) (hstate : x.t.state = state)
      (hown : x.s.catMaker.puzzleHash = x.t.state.catMakerPuzzleHash)
      (hpay : coin.send refunded ∈ x.conditions) :
      Consumes M K state coin truth solution .refund x.conditions

/-- An accepted call that takes a coin did compute that. -/
theorem Takes.consumes {c : Call Action} {cs : List Condition} (h : Takes state coin c cs)
    (hstate : r.state = state.toClvm) (hc : Accepts (Action.run M K) r info c cs) :
    Consumes M K state coin (.pair .nil r.state) c.solution c.action cs := by
  obtain ⟨truth', hruns, -⟩ := hc.runs
  have ht {t : XchandlesStateTruth} (h : Clvm.pair .nil r.state = t.toClvm) : t.state = state := by
    rw [hstate] at h
    have hpair : (XchandlesStateTruth.mk .nil state).toClvm = t.toClvm := h
    rw [← XchandlesStateTruth.toClvm_injective hpair]
  cases h with
  | register solution _ hpay =>
      obtain ⟨x, hx⟩ := register_eq_some.1 hruns
      obtain ⟨-, rfl⟩ := Prod.mk.inj hx
      exact .register x (ht x.truth_eq) hpay
  | expire solution _ hpay =>
      obtain ⟨x, hx⟩ := expire_eq_some.1 hruns
      obtain ⟨-, rfl⟩ := Prod.mk.inj hx
      exact .expire x (ht x.truth_eq) hpay
  | refund s _ hpay hown =>
      obtain ⟨x, hx⟩ := refund_eq_some.1 hruns
      obtain ⟨-, rfl⟩ := Prod.mk.inj hx
      have hs : s = x.s := RefundSolution.toClvm_injective x.solution_eq
      refine .refund x (ht x.truth_eq) ?_ hpay
      rw [← hs, ht x.truth_eq]
      exact hown

end

/-! ## A purchase that is accepted -/

namespace UpdateExample

open Example

theorem sales_bindsInner : sales.BindsInner machine := fun maker d hd hstate =>
  (isCatMaker_sales maker d hd hstate).bindsInner collisionFree

/-- The handle can be bought after its expiration. -/
theorem accepts_bought {r : Registry} (hstate : r.state = sales.toClvm)
    (hlive : zeroCoins (second.initiation second_possible).conditions ≤ r.live) :
    Accepts (Action.run machine constants) r ⟨200, 1000, []⟩ ⟨.expire, (purchase [2]).toClvm⟩
      bought.conditions where
  runs := by
    rw [hstate]
    exact ⟨truth, expire_eq_some.2 ⟨bought, rfl⟩, _, rfl⟩
  live := by
    rw [ExpireRun.slotSpends_conditions, Multiset.singleton_le]
    refine Multiset.mem_of_le hlive ?_
    rw [InitiateRun.zeroCoins_conditions]
    exact Multiset.mem_cons_self _ _
  holds := by
    have hbuy : (Condition.assertSecondsAbsolute (.ofInt 900)).Holds ⟨200, 1000, []⟩ :=
      (Condition.holds_assertSecondsAbsolute (n := 900) (by decide)).2 (by decide : 900 ≤ 1000)
    have hpast : (Condition.assertSecondsAbsolute (.ofInt 866)).Holds ⟨200, 1000, []⟩ :=
      (Condition.holds_assertSecondsAbsolute (n := 866) (by decide)).2 (by decide : 866 ≤ 1000)
    exact bought.holds hbuy hpast

end UpdateExample

section

variable {M : Machine} {K : Constants} {S : Sentinels} {r : Registry} {state : XchandlesState}

/-- **Exclusive disposition.**  At every state a history reaches and at every
time, at most one of a registration, an expiry and an honest refund can consume
a precommit coin, whatever their solutions are. -/
theorem disposition_exclusive (hH : M.hash.CollisionFree)
    (hK : K.handleSlot1stCurryHash ≠ K.updateSlot1stCurryHash) {r₀ : Registry}
    {events : List (Event Action)} (h0 : Starts M.hash K S r₀)
    (hrun : Run (Action.run M K) r₀ events r) (hstate : r.state = state.toClvm)
    (hmaker : state.BindsInner M) (coin : PrecommitCoin) :
    ¬ ∃ (info info' : BlockInfo) (c c' : Call Action) (cs cs' : List Condition),
      info.timestamp = info'.timestamp ∧ c.action ≠ c'.action ∧
      Accepts (Action.run M K) r info c cs ∧ Accepts (Action.run M K) r info' c' cs' ∧
      Takes state coin c cs ∧ Takes state coin c' cs' := by
  rintro ⟨info, info', ⟨a, solution⟩, ⟨a', solution'⟩, cs, cs', htime, hne, hc, hc', htakes,
    htakes'⟩
  obtain ⟨items, hitems, hinv⟩ := exists_invariant hH hK h0 hrun
  obtain ⟨l, hnodes, hlinked⟩ := hinv.exists_doublyLinked
  have hl : Listed M K S r items l := ⟨hitems, hnodes, hlinked⟩
  have hx := htakes.consumes hstate hc
  have hy := htakes'.consumes hstate hc'
  cases hx with
  | register x hxstate hxpay =>
      have hxmaker : x.t.state.BindsInner M := hxstate ▸ hmaker
      cases hy with
      | register y _ _ => exact hne rfl
      | expire y _ hypay =>
          exact not_register_and_expire hl hH hK x y hxmaker hc.live hc'.live hc'.holds hxpay hypay
      | refund y hystate hown hypay =>
          exact not_register_and_refund hl hH hK x y (hystate ▸ hmaker) hown hc.live hc'.live
            hc'.holds hxpay hypay
  | expire x hxstate hxpay =>
      cases hy with
      | register y hystate hypay =>
          exact not_register_and_expire hl hH hK y x (hystate ▸ hmaker) hc'.live hc.live hc.holds
            hypay hxpay
      | expire y _ _ => exact hne rfl
      | refund y hystate hown hypay =>
          exact not_expire_and_refund hl hH hK x y (hystate ▸ hmaker) hown hc.live hc'.live
            hc.holds hc'.holds htime hxpay hypay
  | refund x hxstate hown hxpay =>
      cases hy with
      | register y _ hypay =>
          exact not_register_and_refund hl hH hK y x (hxstate ▸ hmaker) hown hc'.live hc.live
            hc.holds hypay hxpay
      | expire y _ hypay =>
          exact not_expire_and_refund hl hH hK y x (hxstate ▸ hmaker) hown hc'.live hc.live
            hc'.holds hc.holds htime.symm hypay hxpay
      | refund y _ _ _ => exact hne rfl

end

/-- The expired handle of the example is for sale to the coin of the purchase: the purchase takes
it, so at that time no registration and no refund does. -/
theorem disposition_exclusive_purchase : ∃ r,
    Run (Action.run UpdateExample.machine Example.constants) UpdateExample.launched
      UpdateExample.pending r ∧
    Accepts (Action.run UpdateExample.machine Example.constants) r ⟨200, 1000, []⟩
      ⟨.expire, (UpdateExample.purchase [2]).toClvm⟩ UpdateExample.bought.conditions ∧
    Takes UpdateExample.sales UpdateExample.purchaseCoin
      ⟨.expire, (UpdateExample.purchase [2]).toClvm⟩ UpdateExample.bought.conditions ∧
    ∀ (info : BlockInfo) (c : Call Action) (cs : List Condition), info.timestamp = 1000 →
      c.action ≠ .expire →
      Accepts (Action.run UpdateExample.machine Example.constants) r info c cs →
      ¬ Takes UpdateExample.sales UpdateExample.purchaseCoin c cs := by
  obtain ⟨r, hrun, hstate, hlive⟩ := UpdateExample.exists_pending
  have haccepts := UpdateExample.accepts_bought hstate hlive
  have htakes : Takes UpdateExample.sales UpdateExample.purchaseCoin
      ⟨.expire, (UpdateExample.purchase [2]).toClvm⟩ UpdateExample.bought.conditions :=
    .expire _ _ (UpdateExample.bought.send_mem.2 ⟨rfl, rfl, rfl⟩)
  refine ⟨r, hrun, haccepts, htakes, fun info c cs htime hne hc htakes' => ?_⟩
  exact disposition_exclusive UpdateExample.collisionFree (by decide) UpdateExample.starts hrun hstate
    UpdateExample.sales_bindsInner UpdateExample.purchaseCoin
    ⟨_, info, _, c, _, cs, htime.symm, hne.symm, haccepts, hc, htakes, htakes'⟩

end SlotMachine.Xchandles
