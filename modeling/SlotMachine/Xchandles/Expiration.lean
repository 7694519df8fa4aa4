import SlotMachine.Puzzles.ExponentialPremium
import SlotMachine.Xchandles.Ownership

/-!
# XCHandles: expirations only grow

The registry never compares a new expiration with the old one.  That it grows
rests on the default pricing puzzles: one sells a positive time only, and the
other has no price before the expiration.  Since a payment names the expiration
it extends, no payment extends a handle twice.

* `Priced` — the state names the default pricing puzzles.
* `ExpirationRule` — what an action may do to the expiration of a slot it spends;
  `expirationRule_of_run` says that every action keeps to it.
* `Charge` — what the payment of an extension commits to; `Charge.inj`.
* `expiration_monotone` — **expirations only grow, and no two extensions of a
  history ask for the same payment**.
-/

namespace SlotMachine.Xchandles

open Settlement SortedList Trail

/-! ## The default pricing puzzles -/

/-- The program is `factor_pricing` with a positive price and a positive period. -/
def IsFactorPricing (M : Machine) (puzzle : Clvm) : Prop :=
  ∃ basePrice period : ℤ, 0 < basePrice ∧ 0 < period ∧
    ∀ solution, M.eval puzzle solution = factorPricing basePrice period solution

/-- The program is `exponential_premium` over `factor_pricing`, with a positive
halving period. -/
def IsExponentialPremium (M : Machine) (puzzle : Clvm) : Prop :=
  ∃ (basePrice period : ℤ) (c : PremiumConstants), 0 < basePrice ∧ 0 < period ∧
    0 < c.halvingPeriod ∧ ∀ solution,
      M.eval puzzle solution = exponentialPremium (factorPricing basePrice period) c solution

/-- The state an action is given names the default pricing puzzles. -/
def Priced (M : Machine) (truth : Clvm) : Prop :=
  ∃ (t : XchandlesStateTruth) (pricing expired : Clvm) (pricingHash expiredHash : Bytes),
    truth = t.toClvm ∧ t.state.pricingPuzzleHash = .atom pricingHash ∧
    M.hash.treeHash pricing = some pricingHash ∧ IsFactorPricing M pricing ∧
    t.state.expiredHandlePricingPuzzleHash = .atom expiredHash ∧
    M.hash.treeHash expired = some expiredHash ∧ IsExponentialPremium M expired

/-! ## Payments -/

/-- The announcement an extension asserts: of some offer puzzle, for a payment
under a nonce that names the handle and its expiration. -/
def Charge (H : HashOracle) (K : Constants) (handle expiration : Clvm) (payment : Bytes) : Prop :=
  ∃ (offer nonce notarized : Bytes) (price : Clvm),
    H.treeHash (.pair handle expiration) = some nonce ∧
    H.treeHash (extendPayment K nonce price) = some notarized ∧
    H.hashAtoms [.atom offer, .atom notarized] = some payment

/-- **A payment names the handle and the expiration it extends.** -/
theorem Charge.inj {H : HashOracle} (hH : H.CollisionFree) {K : Constants}
    {handle expiration handle' expiration' : Clvm} {payment : Bytes}
    (h : Charge H K handle expiration payment) (h' : Charge H K handle' expiration' payment) :
    handle = handle' ∧ expiration = expiration' := by
  obtain ⟨offer, nonce, notarized, price, hnonce, hnotarized, hpayment⟩ := h
  obtain ⟨offer', nonce', notarized', price', hnonce', hnotarized', hpayment'⟩ := h'
  obtain ⟨m, hm, hd⟩ := HashOracle.hashAtoms_eq_some.1 hpayment
  obtain ⟨m', hm', hd'⟩ := HashOracle.hashAtoms_eq_some.1 hpayment'
  have hmessage : offer ++ notarized = offer' ++ notarized' := by
    have hsame : m = m' := hH hd hd'
    rw [← hsame] at hm'
    simpa [concatAtoms, Clvm.bytes?] using hm.trans hm'.symm
  have hlen : notarized.length = notarized'.length := by
    rw [HashOracle.length_treeHash hnotarized, HashOracle.length_treeHash hnotarized']
  have hlast : notarized = notarized' := (List.append_inj' hmessage hlen).2
  rw [← hlast] at hnotarized'
  have hpaid := HashOracle.treeHash_inj hH hnotarized hnotarized'
  simp only [extendPayment, Clvm.pair.injEq, Clvm.atom.injEq] at hpaid
  rw [← hpaid.1] at hnonce'
  exact Clvm.pair.inj (HashOracle.treeHash_inj hH hnonce hnonce')

/-- What an extension checks and asserts: the puzzle it runs is the one in the
state, and the only announcement it waits for is its payment. -/
theorem exists_charge {M : Machine} {K : Constants} {truth solution : Clvm}
    {out : Clvm × List Condition} (h : extend M K truth solution = some out) :
    ∃ (t : XchandlesStateTruth) (s : ExtendSolution) (pricingHash payment : Bytes),
      truth = t.toClvm ∧ solution = s.toClvm ∧
      M.hash.treeHash s.handlePricing.puzzle = some pricingHash ∧
      t.state.pricingPuzzleHash = .atom pricingHash ∧
      Charge M.hash K s.handlePricing.solution.handle s.handlePricing.solution.currentExpiration
        payment ∧
      ∀ id, .assertPuzzleAnnouncement id ∈ out.2 → id = .atom payment := by
  obtain ⟨t, ht, h1⟩ := bind_elim h
  obtain ⟨s, hs, h2⟩ := bind_elim h1
  obtain ⟨priced, -, h3⟩ := bind_elim h2
  obtain ⟨handleHash, -, h4⟩ := bind_elim h3
  obtain ⟨offer, -, h5⟩ := bind_elim h4
  obtain ⟨catMakerHash, -, h6⟩ := bind_elim h5
  obtain ⟨catMakerMatches, -, h7⟩ := bind_elim h6
  obtain ⟨pricingHash, hpricing, h8⟩ := bind_elim h7
  obtain ⟨pricingMatches, hmatches, h9⟩ := bind_elim h8
  obtain ⟨_, hassert, h10⟩ := bind_elim h9
  obtain ⟨spend, hspend, h11⟩ := bind_elim h10
  obtain ⟨announcement, -, h12⟩ := bind_elim h11
  obtain ⟨counter, -, h13⟩ := bind_elim h12
  obtain ⟨expiration, -, h14⟩ := bind_elim h13
  obtain ⟨create, hcreate, h15⟩ := bind_elim h14
  obtain ⟨nonce, hnonce, h16⟩ := bind_elim h15
  obtain ⟨notarized, hnotarized, h17⟩ := bind_elim h16
  obtain ⟨payment, hpayment, h18⟩ := bind_elim h17
  obtain ⟨spent, -, rfl⟩ := spendHandle_eq_some.1 hspend
  obtain ⟨created, -, rfl⟩ := createHandle_eq_some.1 hcreate
  have hboth := assertThat_eq_some.1 hassert
  rw [Bool.and_eq_true] at hboth
  rw [hboth.2] at hmatches
  obtain ⟨b, hb, hstate⟩ := Clvm.eq_eq_some_true.1 hmatches
  obtain rfl := Clvm.atom.inj hb
  refine ⟨t, s, pricingHash, payment, XchandlesStateTruth.ofClvm?_eq_some.1 ht,
    ExtendSolution.ofClvm?_eq_some.1 hs, hpricing, hstate,
    ⟨offer, nonce, notarized, priced.totalPrice, hnonce, hnotarized, hpayment⟩, ?_⟩
  intro id hid
  rw [← Option.some.inj h18] at hid
  simpa [extendConditions, spendCoin, createHandleCoin] using hid

/-! ## What an action does to an expiration -/

/-- An extension or an expiry raises the expiration, and any other action keeps it. -/
inductive ExpirationRule (action : Action) (m : Clvm × Clvm) : Prop where
  | raises {before after : Bytes} : action = .extend ∨ action = .expire →
      expirationOf m.1 = some (.atom before) → expirationOf m.2 = some (.atom after) →
      intFromBytes before < intFromBytes after → ExpirationRule action m
  | keeps : action ≠ .extend → action ≠ .expire → expirationOf m.2 = expirationOf m.1 →
      ExpirationRule action m

section

variable {M : Machine} {K : Constants} {truth truth' solution : Clvm} {cs : List Condition}

theorem ExtendSolution.toClvm_injective : Function.Injective ExtendSolution.toClvm :=
  fun _ _ h => Option.some.inj
    ((ExtendSolution.ofClvm?_eq_some.2 rfl).symm.trans (ExtendSolution.ofClvm?_eq_some.2 h))

/-- A puzzle that has the hash in the state is the puzzle the state means. -/
theorem Priced.isFactorPricing (hH : M.hash.CollisionFree) (h : Priced M truth)
    {t : XchandlesStateTruth} {puzzle : Clvm} {d : Bytes} (ht : truth = t.toClvm)
    (hd : t.state.pricingPuzzleHash = .atom d) (hpuzzle : M.hash.treeHash puzzle = some d) :
    IsFactorPricing M puzzle := by
  obtain ⟨t', pricing, _, pricingHash, _, ht', hhash, hpricing, hfactor, -⟩ := h
  obtain rfl := XchandlesStateTruth.toClvm_injective (ht.symm.trans ht')
  obtain rfl := Clvm.atom.inj (hd.symm.trans hhash)
  rw [HashOracle.treeHash_inj hH hpuzzle hpricing]
  exact hfactor

theorem Priced.isExponentialPremium (hH : M.hash.CollisionFree) (h : Priced M truth)
    {t : XchandlesStateTruth} {puzzle : Clvm} {d : Bytes} (ht : truth = t.toClvm)
    (hd : t.state.expiredHandlePricingPuzzleHash = .atom d)
    (hpuzzle : M.hash.treeHash puzzle = some d) : IsExponentialPremium M puzzle := by
  obtain ⟨t', _, expired, _, expiredHash, ht', -, -, -, hhash, hexpired, hpremium⟩ := h
  obtain rfl := XchandlesStateTruth.toClvm_injective (ht.symm.trans ht')
  obtain rfl := Clvm.atom.inj (hd.symm.trans hhash)
  rw [HashOracle.treeHash_inj hH hpuzzle hexpired]
  exact hpremium

/-- An extension adds a positive time. -/
theorem ExtendRun.raises (hH : M.hash.CollisionFree) (hpriced : Priced M truth)
    (h : extend M K truth solution = some (truth', cs)) (r : ExtendRun M K truth solution) :
    ExpirationRule .extend (r.before, r.after) := by
  obtain ⟨t, s, pricingHash, payment, ht, hs, hpricing, hstate, -, -⟩ := exists_charge h
  obtain rfl := ExtendSolution.toClvm_injective (hs.symm.trans r.solution_eq)
  obtain ⟨basePrice, period, -, hperiod, heval⟩ := hpriced.isFactorPricing hH ht hstate hpricing
  have hreturns := runPricing_eq_some.1 r.runs_pricing
  rw [heval] at hreturns
  obtain ⟨time, htime, hpos⟩ := registered_pos hperiod hreturns
  obtain ⟨x, y, hx, hy, hexpiration⟩ := Clvm.add_eq_some.1 r.expiration_eq
  rw [htime] at hy
  obtain rfl := Clvm.atom.inj hy
  rw [intFromBytes_intToBytes] at hexpiration
  have hbefore : expirationOf r.before = some (.atom x) := congrArg some hx
  have hafter : expirationOf r.after = some (.atom (intToBytes (intFromBytes x + time))) :=
    congrArg some hexpiration
  refine .raises (Or.inl rfl) hbefore hafter ?_
  rw [intFromBytes_intToBytes]
  omega

/-- An expiry starts no earlier than the expiration, and adds a positive time to that. -/
theorem ExpireRun.raises (hH : M.hash.CollisionFree) (hpriced : Priced M truth)
    (r : ExpireRun M K truth solution) :
    (∃ t e, r.s.pricing.solution.buyTime = .atom t ∧
        r.s.pricing.solution.currentExpiration = .atom e ∧ intFromBytes e ≤ intFromBytes t) ∧
      ExpirationRule .expire (r.before, r.after) := by
  obtain ⟨basePrice, period, c, -, hperiod, hhalving, heval⟩ :=
    hpriced.isExponentialPremium hH r.truth_eq r.pricing_eq r.hashes_pricing
  have hreturns := runPricing_eq_some.1 r.runs_pricing
  rw [heval] at hreturns
  obtain ⟨⟨t, e, ht, he, hle⟩, price, hbase⟩ := exponentialPremium_time hhalving hreturns
  obtain ⟨time, htime, hpos⟩ := registered_pos hperiod hbase
  obtain ⟨x, y, hx, hy, hexpiration⟩ := Clvm.add_eq_some.1 r.expiration_eq
  rw [htime] at hx
  obtain rfl := Clvm.atom.inj hx
  rw [ht] at hy
  obtain rfl := Clvm.atom.inj hy
  rw [intFromBytes_intToBytes] at hexpiration
  refine ⟨⟨t, e, ht, he, hle⟩, ?_⟩
  have hbefore : expirationOf r.before = some (.atom e) := congrArg some he
  have hafter : expirationOf r.after = some (.atom (intToBytes (time + intFromBytes t))) :=
    congrArg some hexpiration
  refine .raises (Or.inr rfl) hbefore hafter ?_
  rw [intFromBytes_intToBytes]
  omega

/-- **Every action keeps to the rule.** -/
theorem expirationRule_of_run (hH : M.hash.CollisionFree) (hpriced : Priced M truth)
    {action : Action} (h : action.run M K truth solution = some (truth', cs)) {f : Footprint}
    (hf : Explains M K truth solution action cs f) {m : Clvm × Clvm} (hm : m ∈ f.moves) :
    ExpirationRule action m := by
  have hrewrites := hf.rewrites hm
  cases hf with
  | extend r =>
      obtain rfl := List.mem_singleton.1 hm
      exact r.raises hH hpriced h
  | expire r =>
      obtain rfl := List.mem_singleton.1 hm
      exact (r.raises hH hpriced).2
  | executeUpdate r =>
      cases hrewrites with
      | execute hexecute =>
          obtain ⟨e, _, _, _, _, _, _, _, _, _, _, _, he, he', -⟩ := hexecute
          exact .keeps (by simp) (by simp) (he'.trans he.symm)
      | keep hk _ hexpiration => exact .keeps (by simp) (by simp) hexpiration
  | initiateUpdate r =>
      cases hrewrites with
      | initiate _ hexpiration _ _ => exact .keeps (by simp) (by simp) hexpiration
      | keep hk _ hexpiration => exact .keeps (by simp) (by simp) hexpiration
  | register r =>
      cases hrewrites with
      | keep hk _ hexpiration => exact .keeps (by simp) (by simp) hexpiration
  | oracle r =>
      cases hrewrites with
      | keep hk _ hexpiration => exact .keeps (by simp) (by simp) hexpiration
  | refund r =>
      cases hrewrites with
      | keep hk _ hexpiration => exact .keeps (by simp) (by simp) hexpiration
  | delegatedState d sender => exact absurd hm List.not_mem_nil

/-- An extension and an expiry spend one handle slot. -/
theorem Explains.exists_move {action : Action} {f : Footprint}
    (hf : Explains M K truth solution action cs f) (h : action = .extend ∨ action = .expire) :
    ∃ m, f.moves = [m] := by
  rcases h with rfl | rfl
  · cases hf with
    | extend r => exact ⟨_, rfl⟩
  · cases hf with
    | expire r => exact ⟨_, rfl⟩

end

/-- The expiration of a slot as an integer. -/
def expiresAt (v : Clvm) : ℤ :=
  match expirationOf v with
  | some (.atom b) => intFromBytes b
  | _ => 0

theorem expiresAt_of_expirationOf {v : Clvm} {b : Bytes} (h : expirationOf v = some (.atom b)) :
    expiresAt v = intFromBytes b := by
  unfold expiresAt
  rw [h]

theorem ExpirationRule.le {action : Action} {m : Clvm × Clvm} (h : ExpirationRule action m) :
    expiresAt m.1 ≤ expiresAt m.2 := by
  cases h with
  | raises _ hbefore hafter hlt =>
      rw [expiresAt_of_expirationOf hbefore, expiresAt_of_expirationOf hafter]
      exact hlt.le
  | keeps _ _ hsame =>
      unfold expiresAt
      rw [hsame]

theorem ExpirationRule.lt {m : Clvm × Clvm} (h : ExpirationRule .extend m) :
    expiresAt m.1 < expiresAt m.2 := by
  cases h with
  | raises _ hbefore hafter hlt =>
      rw [expiresAt_of_expirationOf hbefore, expiresAt_of_expirationOf hafter]
      exact hlt
  | keeps hne _ _ => exact absurd rfl hne

/-! ## A block -/

/-- The handle and the expiration an extension is charged for. -/
def chargedFor (s : Step Action) : Option (Clvm × Clvm) :=
  if s.call.action = .extend then
    (ExtendSolution.ofClvm? s.call.solution).map fun x =>
      (x.handlePricing.solution.handle, x.handlePricing.solution.currentExpiration)
  else none

/-- The steps are not charged for the same. -/
def ChargedApart (s s' : Step Action) : Prop :=
  ∀ c, chargedFor s = some c → chargedFor s' ≠ some c

section Block

variable {M : Machine} {K : Constants}

/-- An extension raises the expiration it is charged for, on the slot of its handle. -/
theorem exists_move_of_chargedFor {s : Step Action} {f : Footprint}
    (hf : Explains M K s.truth s.call.solution s.call.action s.conditions f) {handle e : Clvm}
    (h : chargedFor s = some (handle, e)) :
    s.call.action = .extend ∧ ∃ (m : Clvm × Clvm) (d : Bytes), m ∈ f.moves ∧
      M.hash.treeHashAtom handle = some d ∧ keyOf m.1 = some (.atom d) ∧
      expirationOf m.1 = some e := by
  obtain ⟨⟨action, solution⟩, truth, truth', cs⟩ := s
  unfold chargedFor at h
  dsimp only at hf h ⊢
  by_cases haction : action = .extend
  · rw [if_pos haction] at h
    obtain ⟨x, hx, hcharged⟩ := Option.map_eq_some_iff.1 h
    rw [haction] at hf
    cases hf with
    | extend r =>
        have hsame : x = r.s := ExtendSolution.toClvm_injective
          ((ExtendSolution.ofClvm?_eq_some.1 hx).symm.trans r.solution_eq)
        rw [hsame] at hcharged
        obtain ⟨rfl, rfl⟩ := Prod.mk.inj hcharged
        exact ⟨haction, _, r.handleHash, List.mem_singleton_self _, r.hashes_handle, rfl, rfl⟩
  · rw [if_neg haction] at h
    cases h

variable {items items' : Multiset Item} {steps : List (Step Action)} {fs : List Footprint}

/-- In a block with default pricing no move lowers an expiration. -/
theorem Footprints.le_of_mem (hfs : Footprints M K steps fs)
    (hrules : ∀ s ∈ steps, ∀ f, Explains M K s.truth s.call.solution s.call.action s.conditions f →
      ∀ m ∈ f.moves, ExpirationRule s.call.action m) {k : Option Clvm} :
    ∀ m ∈ movesOn k fs, expiresAt m.1 ≤ expiresAt m.2 := by
  intro m hm
  obtain ⟨s, hs, f, hf, hmf⟩ := hfs.exists_step hm
  exact (hrules s hs f hf m hmf).le

/-- Moves on one key that raise its expiration start at different expirations. -/
theorem pairwise_moves (hfs : ∀ f ∈ fs, f.Lawful)
    (h : Settles items (Effect.total (fs.map Footprint.effect)) items')
    (hnodup : (keysOf items').Nodup)
    (hle : ∀ k, ∀ m ∈ movesOn k fs, expiresAt m.1 ≤ expiresAt m.2) :
    fs.Pairwise fun f f' => ∀ m ∈ f.moves, ∀ m' ∈ f'.moves, keyOf m.1 = keyOf m'.1 →
      expiresAt m.1 < expiresAt m.2 → expiresAt m'.1 < expiresAt m'.2 →
        expiresAt m.1 ≠ expiresAt m'.1 := by
  have hall : (fs.flatMap Footprint.moves).Pairwise fun m m' => keyOf m.1 = keyOf m'.1 →
      expiresAt m.1 < expiresAt m.2 → expiresAt m'.1 < expiresAt m'.2 →
        expiresAt m.1 ≠ expiresAt m'.1 := by
    rw [List.pairwise_iff_forall_sublist]
    intro m m' hsub hkey
    have hon : (movesOn (keyOf m.1) fs).Pairwise fun m m' => expiresAt m.1 < expiresAt m.2 →
        expiresAt m'.1 < expiresAt m'.2 → expiresAt m.1 ≠ expiresAt m'.1 := by
      rcases exists_handle_trail hfs h hnodup (keyOf m.1) with
        ⟨-, hnone⟩ | ⟨a, b, trail, -, -, -, -, -, hperm, htrail⟩
      · rw [hnone]
        exact List.Pairwise.nil
      · refine htrail.pairwise_ne ?_ hperm
        exact fun m'' hm'' => hle _ m'' (hperm.mem_iff.1 hm'')
    have hboth : [m, m'].Sublist (movesOn (keyOf m.1) fs) := by
      have hfilter := hsub.filter fun x => decide (keyOf x.1 = keyOf m.1)
      simpa [movesOn, hkey] using hfilter
    exact List.pairwise_iff_forall_sublist.1 hon hboth
  exact (List.pairwise_flatMap.1 hall).2

/-- How the expiration of a key moves in a block: every live slot of the key
expires no later than any move on it starts, and no move ends later than the
slot live afterwards expires. -/
theorem exists_growth (hfs : ∀ f ∈ fs, f.Lawful)
    (h : Settles items (Effect.total (fs.map Footprint.effect)) items')
    (hnodup : (keysOf items').Nodup) {k : Option Clvm}
    (hle : ∀ m ∈ movesOn k fs, expiresAt m.1 ≤ expiresAt m.2) :
    ((∀ v ∈ handlesOf items, keyOf v ≠ k) ∧ movesOn k fs = []) ∨
      ∃ b ∈ handlesOf items', keyOf b = k ∧
        (∀ v ∈ handlesOf items, keyOf v = k → expiresAt v ≤ expiresAt b ∧
          ∀ m ∈ movesOn k fs, expiresAt v ≤ expiresAt m.1) ∧
        ∀ m ∈ movesOn k fs, expiresAt m.2 ≤ expiresAt b := by
  rcases exists_handle_trail hfs h hnodup k with
    hnone | ⟨a, b, trail, -, hunique, hb, -, hkey, hperm, htrail⟩
  · exact Or.inl hnone
  · right
    have hgrows := htrail.le_of_forall fun m hm => hle m (hperm.mem_iff.1 hm)
    refine ⟨b, hb, hkey, ?_, ?_⟩
    · intro v hv hvk
      rw [hunique v hv hvk]
      exact ⟨hgrows.1, fun m hm => (hgrows.2 m (hperm.mem_iff.2 hm)).1⟩
    · intro m hm
      exact (hgrows.2 m (hperm.mem_iff.2 hm)).2

/-- Two extensions of a block are not charged for the same. -/
theorem Footprints.pairwise_chargedApart (hfs : Footprints M K steps fs)
    (hrules : ∀ s ∈ steps, ∀ f, Explains M K s.truth s.call.solution s.call.action s.conditions f →
      ∀ m ∈ f.moves, ExpirationRule s.call.action m)
    (hapart : fs.Pairwise fun f f' => ∀ m ∈ f.moves, ∀ m' ∈ f'.moves, keyOf m.1 = keyOf m'.1 →
      expiresAt m.1 < expiresAt m.2 → expiresAt m'.1 < expiresAt m'.2 →
        expiresAt m.1 ≠ expiresAt m'.1) :
    steps.Pairwise ChargedApart := by
  induction hfs with
  | nil => exact List.Pairwise.nil
  | @cons s f steps fs hs hrest ih =>
      obtain ⟨hhead, htail⟩ := List.pairwise_cons.1 hapart
      refine List.Pairwise.cons ?_
        (ih (fun s' hs' => hrules s' (List.mem_cons_of_mem _ hs')) htail)
      intro s' hs' c hc hc'
      obtain ⟨f', hf', hexplains⟩ := Footprints.exists_mem_of_step hrest hs'
      obtain ⟨haction, m, d, hm, hd, hkey, hexpiration⟩ := exists_move_of_chargedFor hs hc
      obtain ⟨haction', m', d', hm', hd', hkey', hexpiration'⟩ :=
        exists_move_of_chargedFor hexplains hc'
      -- both would raise the same expiration of the same handle
      have hsame : d = d' := Option.some.inj (hd.symm.trans hd')
      have hrule := hrules s List.mem_cons_self f hs m hm
      have hrule' := hrules s' (List.mem_cons_of_mem _ hs') f' hexplains m' hm'
      rw [haction] at hrule
      rw [haction'] at hrule'
      refine hhead f' hf' m hm m' hm' ?_ hrule.lt hrule'.lt ?_
      · rw [hkey, hkey', hsame]
      · unfold expiresAt
        rw [hexpiration, hexpiration']

end Block

/-! ## A history -/

/-- What a step was charged for is behind the live slot of the handle. -/
def Outgrown (H : HashOracle) (items : Multiset Item) (s : Step Action) : Prop :=
  ∀ handle e, chargedFor s = some (handle, e) → ∃ d, H.treeHashAtom handle = some d ∧
    ∃ w ∈ handlesOf items, keyOf w = some (.atom d) ∧
      ∀ v, expirationOf v = some e → expiresAt v < expiresAt w

/-- Every block of the history is priced by the default puzzles. -/
def AlwaysPriced (M : Machine) (events : List (Event Action)) : Prop :=
  ∀ e ∈ events, ∀ s ∈ e.steps, Priced M s.truth

/-- The steps of a history. -/
def allSteps (events : List (Event Action)) : List (Step Action) := events.flatMap Event.steps

section History

variable {M : Machine} {K : Constants} {S : Sentinels} {r₀ r r' : Registry}
variable {events : List (Event Action)}

theorem expiresAt_congr {v v' : Clvm} (h : expirationOf v = expirationOf v') :
    expiresAt v = expiresAt v' := by
  unfold expiresAt
  rw [h]

/-- The steps of a block keep to the rule. -/
theorem BlockStep.expirationRule (hH : M.hash.CollisionFree) {b : Block Action}
    {steps : List (Step Action)} (hstep : BlockStep (Action.run M K) r b steps r')
    (hpriced : ∀ s ∈ steps, Priced M s.truth) :
    ∀ s ∈ steps, ∀ f, Explains M K s.truth s.call.solution s.call.action s.conditions f →
      ∀ m ∈ f.moves, ExpirationRule s.call.action m := by
  intro s hs f hf m hm
  exact expirationRule_of_run hH (hpriced s hs) (hstep.run_eq hs) hf hm

/-- One block: what was outgrown stays so, what is charged is outgrown
afterwards, and was not before. -/
theorem outgrown_step (hfs : Footprints M K steps fs)
    (hrules : ∀ s ∈ steps, ∀ f, Explains M K s.truth s.call.solution s.call.action s.conditions f →
      ∀ m ∈ f.moves, ExpirationRule s.call.action m)
    {items items' : Multiset Item}
    (h : Settles items (Effect.total (fs.map Footprint.effect)) items')
    (hnodup : (keysOf items').Nodup) :
    (∀ s, Outgrown M.hash items s → Outgrown M.hash items' s) ∧
      (∀ s ∈ steps, Outgrown M.hash items' s) ∧
      ∀ s, Outgrown M.hash items s → ∀ s' ∈ steps, ChargedApart s s' := by
  have hgrowth := fun k => exists_growth hfs.lawful h hnodup (k := k) (hfs.le_of_mem hrules)
  refine ⟨?_, ?_, ?_⟩
  · intro s hs handle e hc
    obtain ⟨d, hd, w, hw, hkey, hlt⟩ := hs handle e hc
    rcases hgrowth (some (.atom d)) with ⟨hnone, -⟩ | ⟨b, hb, hbk, hlive, -⟩
    · exact absurd hkey (hnone w hw)
    · refine ⟨d, hd, b, hb, hbk, ?_⟩
      intro v hv
      exact (hlt v hv).trans_le (hlive w hw hkey).1
  · intro s hs handle e hc
    obtain ⟨f, hf, hexplains⟩ := hfs.exists_mem_of_step hs
    obtain ⟨haction, m, d, hm, hd, hkey, hexpiration⟩ := exists_move_of_chargedFor hexplains hc
    have hrule := hrules s hs f hexplains m hm
    rw [haction] at hrule
    have hon : m ∈ movesOn (some (.atom d)) fs :=
      List.mem_filter.2 ⟨List.mem_flatMap.2 ⟨f, hf, hm⟩, decide_eq_true hkey⟩
    rcases hgrowth (some (.atom d)) with ⟨-, hnone⟩ | ⟨b, hb, hbk, -, hmoves⟩
    · rw [hnone] at hon
      exact absurd hon List.not_mem_nil
    · refine ⟨d, hd, b, hb, hbk, ?_⟩
      intro v hv
      rw [expiresAt_congr (hv.trans hexpiration.symm)]
      exact hrule.lt.trans_le (hmoves m hon)
  · intro s hs s' hs' c hc hc'
    obtain ⟨d, hd, w, hw, hkey, hlt⟩ := hs c.1 c.2 hc
    obtain ⟨f, hf, hexplains⟩ := hfs.exists_mem_of_step hs'
    obtain ⟨-, m, d', hm, hd', hkey', hexpiration⟩ := exists_move_of_chargedFor hexplains hc'
    have hsame : d = d' := Option.some.inj (hd.symm.trans hd')
    have hon : m ∈ movesOn (some (.atom d)) fs := by
      rw [hsame]
      exact List.mem_filter.2 ⟨List.mem_flatMap.2 ⟨f, hf, hm⟩, decide_eq_true hkey'⟩
    -- the slot has outgrown the expiration the move starts at
    rcases hgrowth (some (.atom d)) with ⟨hnone, -⟩ | ⟨b, -, -, hlive, -⟩
    · exact absurd hkey (hnone w hw)
    · exact absurd ((hlive w hw hkey).2 m hon) (not_le.2 (hlt m.1 hexpiration))

/-- **The invariant of charges.**  Everything charged for in a history is
outgrown, and nothing was charged for twice. -/
theorem charges_invariant (hH : M.hash.CollisionFree)
    (hK : K.handleSlot1stCurryHash ≠ K.updateSlot1stCurryHash) (h0 : Starts M.hash K S r₀)
    (hrun : Run (Action.run M K) r₀ events r) (hpriced : AlwaysPriced M events)
    {items : Multiset Item} (hitems : Behind M.hash K items r) :
    (∀ s ∈ allSteps events, Outgrown M.hash items s) ∧
      (allSteps events).Pairwise ChargedApart := by
  induction hrun generalizing items with
  | start => exact ⟨fun s hs => absurd hs List.not_mem_nil, List.Pairwise.nil⟩
  | @next events r₁ r₂ b steps hrun hstep ih =>
      obtain ⟨items₁, hitems₁, hinv⟩ := exists_invariant hH hK h0 hrun
      obtain ⟨fs, hfs⟩ := exists_footprints hstep
      obtain ⟨items₂, hitems₂, hsettles⟩ := exists_settlement hH hK hstep hfs hitems₁
      obtain rfl := hitems₂.unique hH hK hitems
      obtain ⟨l, hl, hlinked⟩ := (hinv.step hfs hsettles).exists_doublyLinked
      have hnodup := nodup_keysOf hl hlinked
      have hrules := BlockStep.expirationRule hH hstep fun s hs =>
        hpriced ⟨b, steps⟩ (List.mem_append_right _ List.mem_cons_self) s hs
      obtain ⟨hpast, hapart⟩ := ih (fun e he => hpriced e (List.mem_append_left _ he)) hitems₁
      obtain ⟨hkeeps, hcharged, hfresh⟩ := outgrown_step hfs hrules hsettles hnodup
      have hsteps : allSteps (events ++ [⟨b, steps⟩]) = allSteps events ++ steps := by
        rw [allSteps, List.flatMap_append, List.flatMap_singleton]
        rfl
      rw [hsteps]
      constructor
      · intro s hs
        rcases List.mem_append.1 hs with hs | hs
        · exact hkeeps s (hpast s hs)
        · exact hcharged s hs
      · have hin : steps.Pairwise ChargedApart :=
          hfs.pairwise_chargedApart hrules (pairwise_moves hfs.lawful hsettles hnodup
            fun k => hfs.le_of_mem hrules)
        exact List.pairwise_append.2 ⟨hapart, hin, fun s hs => hfresh s (hpast s hs)⟩

/-- In one block no live handle slot gets an earlier expiration. -/
theorem exists_later (hH : M.hash.CollisionFree)
    (hK : K.handleSlot1stCurryHash ≠ K.updateSlot1stCurryHash) (h0 : Starts M.hash K S r₀)
    {past : List (Event Action)} (hpast : Run (Action.run M K) r₀ past r) {b : Block Action}
    {steps : List (Step Action)} (hstep : BlockStep (Action.run M K) r b steps r')
    (hpriced : ∀ s ∈ steps, Priced M s.truth) {items items' : Multiset Item}
    (hitems : Behind M.hash K items r) (hitems' : Behind M.hash K items' r') :
    ∀ v ∈ handlesOf items, ∃ w ∈ handlesOf items', keyOf w = keyOf v ∧
      expiresAt v ≤ expiresAt w := by
  intro v hv
  obtain ⟨items₁, hitems₁, hinv⟩ := exists_invariant hH hK h0 hpast
  obtain rfl := hitems₁.unique hH hK hitems
  obtain ⟨fs, hfs⟩ := exists_footprints hstep
  obtain ⟨items₂, hitems₂, hsettles⟩ := exists_settlement hH hK hstep hfs hitems
  obtain rfl := hitems₂.unique hH hK hitems'
  obtain ⟨l, hl, hlinked⟩ := (hinv.step hfs hsettles).exists_doublyLinked
  have hrules := BlockStep.expirationRule hH hstep hpriced
  rcases exists_growth hfs.lawful hsettles (nodup_keysOf hl hlinked)
    (hfs.le_of_mem hrules (k := keyOf v)) with ⟨hnone, -⟩ | ⟨w, hw, hkey, hlive, -⟩
  · exact absurd rfl (hnone v hv)
  · exact ⟨w, hw, hkey, (hlive v hv rfl).1⟩

/-- **Expirations only grow.**  A handle that has a slot at some point of a
history has one at its end, which expires no earlier. -/
theorem exists_later_of_run (hH : M.hash.CollisionFree)
    (hK : K.handleSlot1stCurryHash ≠ K.updateSlot1stCurryHash) (h0 : Starts M.hash K S r₀)
    (hrun : Run (Action.run M K) r₀ events r) (hpriced : AlwaysPriced M events)
    {past future : List (Event Action)} (hevents : events = past ++ future) :
    ∃ r₁, Run (Action.run M K) r₀ past r₁ ∧
      ∀ items₁ items, Behind M.hash K items₁ r₁ → Behind M.hash K items r →
        ∀ v ∈ handlesOf items₁, ∃ w ∈ handlesOf items, keyOf w = keyOf v ∧
          expiresAt v ≤ expiresAt w := by
  -- the history grows at its end: its last block is in the future, or there is no future
  induction hrun generalizing future with
  | start =>
      obtain ⟨rfl, -⟩ := List.append_eq_nil_iff.1 hevents.symm
      refine ⟨r₀, .start, ?_⟩
      intro items₁ items hitems₁ hitems v hv
      obtain rfl := hitems₁.unique hH hK hitems
      exact ⟨v, hv, rfl, le_rfl⟩
  | @next events' r₂ r₃ b steps hrun hstep ih =>
      rcases List.eq_nil_or_concat future with rfl | ⟨future', last, rfl⟩
      · rw [List.append_nil] at hevents
        refine ⟨r₃, hevents ▸ hrun.next hstep, ?_⟩
        intro items₁ items hitems₁ hitems v hv
        obtain rfl := hitems₁.unique hH hK hitems
        exact ⟨v, hv, rfl, le_rfl⟩
      · rw [List.concat_eq_append, ← List.append_assoc] at hevents
        obtain ⟨hpast, -⟩ := List.append_inj' hevents rfl
        obtain ⟨r₁, hrun₁, hlater⟩ := ih (fun e he => hpriced e (List.mem_append_left _ he)) hpast
        refine ⟨r₁, hrun₁, ?_⟩
        intro items₁ items hitems₁ hitems v hv
        obtain ⟨items₂, hitems₂, -⟩ := exists_invariant hH hK h0 hrun
        obtain ⟨u, hu, hukey, hule⟩ := hlater items₁ items₂ hitems₁ hitems₂ v hv
        have hlast : ∀ s ∈ steps, Priced M s.truth := fun s hs =>
          hpriced ⟨b, steps⟩ (List.mem_append_right _ List.mem_cons_self) s hs
        obtain ⟨w, hw, hkey, hle⟩ :=
          exists_later hH hK h0 hrun hstep hlast hitems₂ hitems u hu
        exact ⟨w, hw, hkey.trans hukey, hule.trans hle⟩

/-- Extensions that ask for the same payment are charged for the same. -/
theorem same_charge (hH : M.hash.CollisionFree) {s s' : Step Action}
    (hs : s.call.action.run M K s.truth s.call.solution = some (s.truth', s.conditions))
    (hs' : s'.call.action.run M K s'.truth s'.call.solution = some (s'.truth', s'.conditions))
    (haction : s.call.action = .extend) (haction' : s'.call.action = .extend) {id : Clvm}
    (hid : .assertPuzzleAnnouncement id ∈ s.conditions)
    (hid' : .assertPuzzleAnnouncement id ∈ s'.conditions) :
    ∃ c, chargedFor s = some c ∧ chargedFor s' = some c := by
  rw [haction] at hs
  rw [haction'] at hs'
  obtain ⟨-, x, -, payment, -, hx, -, -, hcharge, hpayment⟩ := exists_charge hs
  obtain ⟨-, x', -, payment', -, hx', -, -, hcharge', hpayment'⟩ := exists_charge hs'
  have hsame : payment' = payment :=
    Clvm.atom.inj ((hpayment' id hid').symm.trans (hpayment id hid))
  rw [hsame] at hcharge'
  obtain ⟨hhandle, hexpiration⟩ := hcharge.inj hH hcharge'
  refine ⟨(x.handlePricing.solution.handle, x.handlePricing.solution.currentExpiration), ?_, ?_⟩
  · unfold chargedFor
    rw [if_pos haction, ExtendSolution.ofClvm?_eq_some.2 hx]
    rfl
  · unfold chargedFor
    rw [if_pos haction', ExtendSolution.ofClvm?_eq_some.2 hx', hhandle, hexpiration]
    rfl

end History

/-! ## An example -/

namespace ExtensionExample

open Example (bytes32 constants)

/-- A handle of five letters. -/
def handle : Bytes := [97, 98, 99, 100, 101]

def handleHash : Bytes := (Skeleton.atom handle).hash

/-- Programs that stand for the compiled pricing puzzles. -/
def factorProgram : Clvm := .atom [201]

def premiumProgram : Clvm := .atom [202]

/-- A program that names the offer puzzle `33…`, whatever it is given. -/
def offerMaker : Clvm := .quoted (.atom (bytes32 33))

def premium : PremiumConstants := ⟨86400, 100000, 10, 1000, []⟩

def state : XchandlesState where
  catMakerPuzzleHash := .atom (Skeleton.ofClvm offerMaker).hash
  pricingPuzzleHash := .atom (Skeleton.ofClvm factorProgram).hash
  expiredHandlePricingPuzzleHash := .atom (Skeleton.ofClvm premiumProgram).hash

def truth : Clvm := (XchandlesStateTruth.mk .nil state).toClvm

/-- One period more for the handle, which has this expiration. -/
def extension (counter : Clvm) (expiration : ℤ) : ExtendSolution where
  handlePricing := ⟨factorProgram, ⟨.ofInt 500, .ofInt expiration, .atom handle, .ofInt 1⟩⟩
  counter := counter
  neighbors := .pair (.atom handleHash) (.atom (bytes32 255))
  restData := .pair (.atom (bytes32 9)) (.atom (bytes32 9))
  catMaker := ⟨offerMaker, .nil⟩

/-- The slot of the handle. -/
def slotAt (counter : Clvm) (expiration : ℤ) : Clvm :=
  (extension counter expiration).slot handleHash counter (.ofInt expiration)

def highSlot : Clvm :=
  handleSlotValue .nil (.atom (bytes32 255)) (.pair (.atom handleHash) (.atom (bytes32 255)))
    (.ofInt 1000) (.pair (.atom (bytes32 9)) (.atom (bytes32 9)))

def sentinels : Sentinels where
  low := handleHash
  high := bytes32 255
  lowLeft := handleHash
  highRight := bytes32 255
  lowSlot := slotAt (.atom []) 1000
  highSlot := highSlot
  lt := by decide +kernel
  lowLeft_le := lt_irrefl _
  highRight_le := lt_irrefl _
  lowSlot_node := rfl
  highSlot_node := rfl

def nonced (expiration : ℤ) : Clvm := .pair (.atom handle) (.ofInt expiration)

/-- The payment for an extension, notarized. -/
def notarized (expiration : ℤ) : Clvm :=
  extendPayment constants (Skeleton.ofClvm (nonced expiration)).hash (.ofInt 160)

def message (expiration : ℤ) : Bytes := bytes32 33 ++ (Skeleton.ofClvm (notarized expiration)).hash

def announced : Clvm := .pair (.ofInt 160) (.atom handle)

def parts : List (List Skeleton) :=
  [[.ofClvm offerMaker, .ofClvm factorProgram, .ofClvm premiumProgram, .ofClvm (.atom handle),
      .ofClvm announced],
    [.ofClvm (nonced 1000), .ofClvm (notarized 1000)],
    [.ofClvm (nonced 1366), .ofClvm (notarized 1366)],
    HashOracle.slotSkeletons (bytes32 4) (slotAt (.atom []) 1000),
    HashOracle.slotSkeletons (bytes32 4) (slotAt (.atom [1]) 1366),
    HashOracle.slotSkeletons (bytes32 4) (slotAt (.atom [2]) 1732),
    HashOracle.slotSkeletons (bytes32 4) highSlot]

def messages : List Bytes := [message 1000, message 1366]

def table : HashOracle := .ofTranscript parts.flatten messages

theorem collisionFree : table.CollisionFree :=
  HashOracle.ofTranscript_collisionFree (by decide +kernel)

/-- Runs the pricing puzzles as their sources say, and CLVM otherwise. -/
def machine : Machine where
  hash := table
  eval p env :=
    if p = factorProgram then factorPricing 10 366 env
    else if p = premiumProgram then exponentialPremium (factorPricing 10 366) premium env
    else Clvm.run table (fun _ _ => none) 1 p env

theorem eval_factorProgram (env : Clvm) :
    machine.eval factorProgram env = factorPricing 10 366 env := by
  simp only [machine, if_true]

theorem eval_premiumProgram (env : Clvm) : machine.eval premiumProgram env
    = exponentialPremium (factorPricing 10 366) premium env := by
  have hne : premiumProgram ≠ factorProgram := by decide
  simp only [machine, if_neg hne, if_true]

theorem eval_offerMaker (env : Clvm) : machine.eval offerMaker env = some (.atom (bytes32 33)) := by
  have hne : offerMaker ≠ factorProgram ∧ offerMaker ≠ premiumProgram := by decide
  simp only [machine, if_neg hne.1, if_neg hne.2]
  exact Clvm.run_quote _ _ _ _ _

theorem le_table : HashOracle.ofSkeletons parts.flatten ≤ table :=
  HashOracle.ofSkeletons_le_ofTranscript _ _

theorem treeHash_part {l : List Skeleton} (hl : l ∈ parts) {v : Clvm} (h : .ofClvm v ∈ l) :
    table.treeHash v = some (Skeleton.ofClvm v).hash :=
  HashOracle.treeHash_mono le_table
    (HashOracle.treeHash_ofSkeletons (List.mem_flatten.2 ⟨l, hl, h⟩))

theorem slotCoin_part {v : Clvm} (h : HashOracle.slotSkeletons (bytes32 4) v ∈ parts) :
    table.slotCoin (bytes32 4) v = some (HashOracle.slotHash (bytes32 4) v) :=
  HashOracle.slotCoin_mono le_table
    (HashOracle.slotCoin_ofSkeletons fun _ ht => List.mem_flatten.2 ⟨_, h, ht⟩)

theorem treeHash_programs {v : Clvm} (h : .ofClvm v ∈
    ([.ofClvm offerMaker, .ofClvm factorProgram, .ofClvm premiumProgram, .ofClvm (.atom handle),
      .ofClvm announced] : List Skeleton)) : table.treeHash v = some (Skeleton.ofClvm v).hash :=
  treeHash_part List.mem_cons_self h

theorem priced : Priced machine truth := by
  refine ⟨⟨.nil, state⟩, factorProgram, premiumProgram, _, _, rfl, rfl, ?_, ?_, rfl, ?_, ?_⟩
  · exact treeHash_programs (by simp)
  · exact ⟨10, 366, by norm_num, by norm_num, eval_factorProgram⟩
  · exact treeHash_programs (by simp)
  · exact ⟨10, 366, premium, by norm_num, by norm_num, by decide, eval_premiumProgram⟩

def slotHash (v : Clvm) : Bytes := HashOracle.slotHash (bytes32 4) v

def payment (expiration : ℤ) : Bytes := Sha256.hash (message expiration)

/-- What the extension asks for. -/
def conditions (counter next : Bytes) (e : ℤ) : List Condition :=
  extendConditions (spendCoin (slotHash (slotAt (.atom counter) e)))
    (createHandleCoin constants (slotHash (slotAt (.atom next) (e + 366))))
    (Skeleton.ofClvm announced).hash (.ofInt e) (.ofInt 500) (payment e)

theorem runs_pricing (e : ℤ) :
    runPricing machine factorProgram
        (.pair (.ofInt 500) (.pair (.ofInt e) (.pair (.atom handle) (.ofInt 1))))
      = some ⟨.ofInt 160, .ofInt 366⟩ := by
  refine runPricing_eq_some.2 ((eval_factorProgram _).trans ?_)
  refine factorPricing_eq_some.2 ⟨_, _, handle, intToBytes 1, 0, 16, rfl, ?_, rfl, rfl, ?_⟩
  · decide
  · rw [intFromBytes_intToBytes]
    rfl

theorem extend_extension {counter next : Bytes} {e : ℤ}
    (hnext : Clvm.ofInt (intFromBytes counter + 1) = .atom next)
    (hspent : HashOracle.slotSkeletons (bytes32 4) (slotAt (.atom counter) e) ∈ parts)
    (hcreated : HashOracle.slotSkeletons (bytes32 4) (slotAt (.atom next) (e + 366)) ∈ parts)
    (hpaid : [.ofClvm (nonced e), .ofClvm (notarized e)] ∈ parts) (hmessage : message e ∈ messages) :
    extend machine constants truth (extension (.atom counter) e).toClvm
      = some (truth, conditions counter next e) := by
  have hhandle : table.treeHashAtom (.atom handle) = some handleHash :=
    treeHash_programs (v := .atom handle) (by simp)
  have hoffer : runCatMaker machine offerMaker constants.offerModHash .nil = some (bytes32 33) :=
    runCatMaker_eq_some.2 (eval_offerMaker _)
  have hmaker := treeHash_programs (v := offerMaker) (by simp)
  have hpricing := treeHash_programs (v := factorProgram) (by simp)
  have hmatches : assertThat (true && true) = some () := rfl
  have hspend : spendHandle table constants ((extension (.atom counter) e).slot handleHash
      (.atom counter) (.ofInt e)) = some (spendCoin (slotHash (slotAt (.atom counter) e))) :=
    spendHandle_eq_some.2 ⟨_, slotCoin_part hspent, rfl⟩
  have hannounced := treeHash_programs (v := announced) (by simp)
  have hcounter : (Clvm.atom counter).increment = some (.atom next) :=
    Clvm.increment_eq_some.2 ⟨_, rfl, hnext.symm⟩
  have hexpiration : (Clvm.ofInt e).add (.ofInt 366) = some (.ofInt (e + 366)) := by
    unfold Clvm.ofInt
    rw [Clvm.add_atom, intFromBytes_intToBytes, intFromBytes_intToBytes]
    rfl
  have hcreate : createHandle table constants ((extension (.atom counter) e).slot handleHash
      (.atom next) (.ofInt (e + 366))) = some (createHandleCoin constants
        (slotHash (slotAt (.atom next) (e + 366)))) :=
    createHandle_eq_some.2 ⟨_, slotCoin_part hcreated, rfl⟩
  have hnonce := treeHash_part hpaid (v := nonced e) (by simp)
  have hnotarized := treeHash_part hpaid (v := notarized e) (by simp)
  have hpayment : table.hashAtoms [.atom (bytes32 33), .atom (Skeleton.ofClvm (notarized e)).hash]
      = some (payment e) :=
    HashOracle.hashAtoms_eq_some.2 ⟨message e, by simp [concatAtoms, Clvm.bytes?, message],
      HashOracle.digest_ofTranscript hmessage⟩
  refine bind_intro rfl (bind_intro rfl (bind_intro (runs_pricing e) ?_))
  refine bind_intro hhandle (bind_intro hoffer (bind_intro hmaker ?_))
  refine bind_intro (Clvm.eq_atom _) (bind_intro hpricing (bind_intro (Clvm.eq_atom _) ?_))
  refine bind_intro hmatches (bind_intro hspend (bind_intro hannounced (bind_intro hcounter ?_)))
  refine bind_intro hexpiration (bind_intro hcreate (bind_intro hnonce (bind_intro hnotarized ?_)))
  exact bind_intro hpayment rfl

/-- The conditions are fulfilled before the expiration. -/
theorem holds_conditions {counter next : Bytes} {e : ℤ} (he : 600 < e) (hsmall : e.toNat < 256 ^ 8) :
    ∀ c ∈ conditions counter next e, c.Holds ⟨100, 600, []⟩ := by
  have hbuy : (Condition.assertSecondsAbsolute (.ofInt 500)).Holds ⟨100, 600, []⟩ :=
    (Condition.holds_assertSecondsAbsolute (n := 500) (by decide)).2 (by decide : 500 ≤ 600)
  have hbefore : (Condition.assertBeforeSecondsAbsolute (.ofInt e)).Holds ⟨100, 600, []⟩ := by
    show (readUint 8 (.ofInt e)).Ahead 600
    rw [readUint_ofInt, if_neg (by omega), if_pos hsmall]
    show 600 < e.toNat
    omega
  intro c hc
  simp only [conditions, extendConditions, List.mem_cons, List.not_mem_nil, or_false] at hc
  rcases hc with rfl | rfl | rfl | rfl | rfl | rfl
  · trivial
  · trivial
  · exact hbefore
  · exact hbuy
  · trivial
  · trivial

def launched : Registry :=
  ⟨state.toClvm, {slotHash (slotAt (.atom []) 1000), slotHash highSlot}⟩

theorem starts : Starts machine.hash constants sentinels launched :=
  starts_of_coins (slotCoin_part (v := slotAt (.atom []) 1000) (by simp [parts]))
    (slotCoin_part (v := highSlot) (by simp [parts]))

/-- A block with the extension. -/
def block (counter : Bytes) (e : ℤ) : Block Action :=
  ⟨⟨100, 600, []⟩, [[⟨.extend, (extension (.atom counter) e).toClvm⟩]]⟩

/-- The handle is extended twice. -/
def extensions : List (Event Action) :=
  [⟨block [] 1000, [⟨⟨.extend, (extension (.atom []) 1000).toClvm⟩, truth, truth,
      conditions [] [1] 1000⟩]⟩,
    ⟨block [1] 1366, [⟨⟨.extend, (extension (.atom [1]) 1366).toClvm⟩, truth, truth,
      conditions [1] [2] 1366⟩]⟩]

theorem exists_run : ∃ r, Run (Action.run machine constants) launched extensions r := by
  have hfirst : extend machine constants truth (extension (.atom []) 1000).toClvm
      = some (truth, conditions [] [1] 1000) :=
    extend_extension (by decide) (by simp [parts]) (by simp [parts]) (by simp [parts])
      (by simp [messages])
  have hsecond : extend machine constants truth (extension (.atom [1]) 1366).toClvm
      = some (truth, conditions [1] [2] 1366) :=
    extend_extension (by decide) (by simp [parts]) (by simp [parts]) (by simp [parts])
      (by simp [messages])
  refine ⟨_, .next (.next .start (blockStep_singleton hfirst rfl ?_ ?_))
    (blockStep_singleton hsecond rfl ?_ ?_)⟩
  · exact Multiset.singleton_le.2 (Multiset.mem_cons_self (slotHash (slotAt (.atom []) 1000))
      {slotHash highSlot})
  · exact holds_conditions (by norm_num) (by decide)
  · exact Multiset.le_add_left _ _
  · exact holds_conditions (by norm_num) (by decide)

theorem alwaysPriced : AlwaysPriced machine extensions := by
  intro e he s hs
  have htruth : s.truth = truth := by
    rcases List.mem_pair.1 he with rfl | rfl
    · rw [List.mem_singleton.1 hs]
    · rw [List.mem_singleton.1 hs]
  rw [htruth]
  exact priced

end ExtensionExample

section

variable {M : Machine} {K : Constants} {S : Sentinels} {r₀ r : Registry}
variable {events : List (Event Action)}

/-- **Expirations only grow, and a payment extends once.**  In every history in
which the registry is priced by the default puzzles: every action keeps to its
rule on each handle slot it spends, where an extension and an expiry spend
exactly one; an expiry succeeds only at a buy time that is not before the
expiration; every handle keeps a slot, which never gets an earlier expiration;
and no two extensions assert the same payment. -/
theorem expiration_monotone (hH : M.hash.CollisionFree)
    (hK : K.handleSlot1stCurryHash ≠ K.updateSlot1stCurryHash) (h0 : Starts M.hash K S r₀)
    (hrun : Run (Action.run M K) r₀ events r) (hpriced : AlwaysPriced M events) :
    (∀ s ∈ allSteps events, ∃ f : Footprint, f.Matches M.hash K s.conditions ∧
      (s.call.action = .extend ∨ s.call.action = .expire → ∃ m, f.moves = [m]) ∧
      ∀ m ∈ f.moves, keyOf m.2 = keyOf m.1 ∧ ExpirationRule s.call.action m) ∧
    (∀ s ∈ allSteps events, s.call.action = .expire →
      ∃ (x : ExpireSolution) (t e : Bytes) (f : Footprint) (m : Clvm × Clvm),
        s.call.solution = x.toClvm ∧ f.Matches M.hash K s.conditions ∧ f.moves = [m] ∧
          expirationOf m.1 = some (.atom e) ∧ x.pricing.solution.buyTime = .atom t ∧
          intFromBytes e ≤ intFromBytes t) ∧
    (∀ past future, events = past ++ future → ∃ r₁, Run (Action.run M K) r₀ past r₁ ∧
      ∀ items₁ items, Behind M.hash K items₁ r₁ → Behind M.hash K items r →
        ∀ v ∈ handlesOf items₁, ∃ w ∈ handlesOf items, keyOf w = keyOf v ∧
          expiresAt v ≤ expiresAt w) ∧
    (allSteps events).Pairwise fun s s' => s.call.action = .extend → s'.call.action = .extend →
      ∀ id, .assertPuzzleAnnouncement id ∈ s.conditions →
        .assertPuzzleAnnouncement id ∉ s'.conditions := by
  have hsteps : ∀ s ∈ allSteps events, Priced M s.truth ∧
      s.call.action.run M K s.truth s.call.solution = some (s.truth', s.conditions) := by
    intro s hs
    obtain ⟨e, he, hse⟩ := List.mem_flatMap.1 hs
    obtain ⟨past, future, hevents⟩ := List.append_of_mem he
    obtain ⟨r₁, r₂, -, hstep⟩ := hrun.exists_block hevents
    exact ⟨hpriced e he s hse, hstep.run_eq hse⟩
  refine ⟨?_, ?_, ?_, ?_⟩
  · intro s hs
    obtain ⟨hp, heq⟩ := hsteps s hs
    obtain ⟨f, hf⟩ := exists_explains heq
    refine ⟨f, hf.matches, hf.exists_move, ?_⟩
    intro m hm
    exact ⟨(hf.lawful.bumps m hm).key, expirationRule_of_run hH hp heq hf hm⟩
  · intro s hs haction
    obtain ⟨hp, heq⟩ := hsteps s hs
    rw [haction] at heq
    obtain ⟨x, hx⟩ := expire_eq_some.1 heq
    obtain ⟨⟨t, e, ht, he, hle⟩, -⟩ := x.raises hH hp
    refine ⟨x.s, t, e, x.footprint, _, x.solution_eq, ?_, rfl, congrArg some he, ht, hle⟩
    rw [(Prod.mk.inj hx).2]
    exact x.footprint_matches
  · intro past future hevents
    exact exists_later_of_run hH hK h0 hrun hpriced hevents
  · obtain ⟨items, hitems, -⟩ := exists_invariant hH hK h0 hrun
    have hapart := (charges_invariant hH hK h0 hrun hpriced hitems).2
    refine hapart.imp_of_mem ?_
    intro s s' hs hs' hne haction haction' id hid hid'
    obtain ⟨c, hc, hc'⟩ :=
      same_charge hH (hsteps s hs).2 (hsteps s' hs').2 haction haction' hid hid'
    exact hne c hc hc'

end

/-- Two extensions of one handle: its expiration grows, and the payments differ. -/
theorem expiration_monotone_extensions : ∃ r,
    Run (Action.run ExtensionExample.machine Example.constants) ExtensionExample.launched
      ExtensionExample.extensions r ∧
    (∀ s ∈ allSteps ExtensionExample.extensions, ∃ m : Clvm × Clvm,
      ExpirationRule s.call.action m) ∧
    (.assertPuzzleAnnouncement (.atom (ExtensionExample.payment 1000)) : Condition)
      ∉ ExtensionExample.conditions [1] [2] 1366 := by
  obtain ⟨r, hrun⟩ := ExtensionExample.exists_run
  obtain ⟨hrules, -, -, hpairwise⟩ := expiration_monotone (M := ExtensionExample.machine)
    ExtensionExample.collisionFree (by decide) ExtensionExample.starts hrun
    ExtensionExample.alwaysPriced
  refine ⟨r, hrun, ?_, ?_⟩
  · intro s hs
    obtain ⟨f, -, hmove, hall⟩ := hrules s hs
    have haction : s.call.action = .extend := by
      simp only [allSteps, ExtensionExample.extensions, List.flatMap_cons, List.flatMap_nil,
        List.append_nil, List.mem_append, List.mem_singleton] at hs
      rcases hs with rfl | rfl <;> rfl
    obtain ⟨m, hm⟩ := hmove (Or.inl haction)
    exact ⟨m, (hall m (hm ▸ List.mem_singleton_self m)).2⟩
  · refine (List.pairwise_cons.1 hpairwise).1 _ List.mem_cons_self rfl rfl _ ?_
    simp [ExtensionExample.conditions, extendConditions]

end SlotMachine.Xchandles
