import SlotMachine.Xchandles.Precommit
import SlotMachine.Xchandles.Uniqueness

/-!
# XCHandles: what a precommit coin buys

A precommit coin is paid out to whoever registers with it, or takes over an
expired handle.  This file shows that the coin fixes what is bought: whatever
solutions are used, in whatever states with the same CAT maker, the purchase and
the slot it creates are those that the coin commits to.

* `Purchase`, `Call.purchase` — what a solution buys.
* `BuiltFor` — a coin that the CAT maker of a state made.
* `Buys` — a purchase that an action carries out.
* `precommit_binding` — **two actions that are paid by one coin carry out one
  purchase.**
-/

namespace SlotMachine.Xchandles

/-! ## Purchases -/

/-- What a registration or an expiry buys: a handle for an owner, at the terms
of a pricing puzzle. -/
structure Purchase where
  handle : Clvm
  secret : Clvm
  data : HandleSlotData
  pricingHash : Clvm
  pricing : HandlePricingSolution

/-- The purchase in the solution of a call. -/
def Call.purchase (H : HashOracle) (c : Call Action) : Option Purchase :=
  match c.action with
  | .register => do
      let s ← RegisterSolution.ofClvm? c.solution
      let d ← H.treeHash s.handlePricing.puzzle
      return ⟨s.handlePricing.solution.handle, s.other.secret, s.other.newRest, .atom d,
        s.handlePricing.solution⟩
  | .expire => do
      let s ← ExpireSolution.ofClvm? c.solution
      let d ← H.treeHash s.pricing.puzzle
      return ⟨s.pricing.solution.handle, s.other.secret, s.other.newRest, .atom d,
        s.pricing.solution⟩
  | _ => none

/-- The pricing puzzle of the state for an action. -/
def XchandlesState.pricingFor (state : XchandlesState) : Action → Clvm
  | .expire => state.expiredHandlePricingPuzzleHash
  | _ => state.pricingPuzzleHash

/-- The opening of a coin commits to a purchase. -/
structure Opening.Commits (o : Opening) (p : Purchase) : Prop where
  pricingHash : o.value.pricingHash = p.pricingHash
  pricingSolution : o.value.pricingSolution = p.pricing.toClvm
  handle : o.value.handle = p.handle
  secret : o.value.secret = p.secret
  data : o.value.data = p.data.toClvm

theorem HandleSlotData.toClvm_injective : Function.Injective HandleSlotData.toClvm := by
  intro v w h
  cases v
  cases w
  obtain ⟨rfl, rfl⟩ := Clvm.pair.inj h
  rfl

/-- An opening commits to one purchase. -/
theorem Opening.Commits.unique {o : Opening} {p p' : Purchase} (h : o.Commits p)
    (h' : o.Commits p') : p = p' := by
  have hpricing := HandlePricingSolution.toClvm_injective
    (h.pricingSolution.symm.trans h'.pricingSolution)
  have hdata := HandleSlotData.toClvm_injective (h.data.symm.trans h'.data)
  have hhash := h.pricingHash.symm.trans h'.pricingHash
  have hhandle := h.handle.symm.trans h'.handle
  have hsecret := h.secret.symm.trans h'.secret
  cases p
  cases p'
  cases hpricing
  cases hdata
  cases hhash
  cases hhandle
  cases hsecret
  rfl

/-- A precommit coin that the CAT maker of a state made, with its opening. -/
def BuiltFor (M : Machine) (K : Constants) (state : XchandlesState) (o : Opening)
    (coin : PrecommitCoin) : Prop :=
  ∃ maker d solution, M.hash.treeHash maker = some d ∧ state.catMakerPuzzleHash = .atom d ∧
    Makes M K maker solution o coin.puzzleHash

/-- The CAT maker of a state binds the inner puzzle. -/
def XchandlesState.BindsInner (M : Machine) (state : XchandlesState) : Prop :=
  ∀ maker d, M.hash.treeHash maker = some d → state.catMakerPuzzleHash = .atom d →
    SlotMachine.BindsInner M maker

/-- A coin has one opening for the CAT maker of a state. -/
theorem BuiltFor.unique {M : Machine} {K : Constants} (hH : M.hash.CollisionFree)
    {state state' : XchandlesState} (hmaker : state.BindsInner M)
    (hstate : state'.catMakerPuzzleHash = state.catMakerPuzzleHash) {o o' : Opening}
    {coin : PrecommitCoin} (h : BuiltFor M K state o coin) (h' : BuiltFor M K state' o' coin) :
    o = o' := by
  obtain ⟨maker, d, s, hd, hc, hmakes⟩ := h
  obtain ⟨maker', d', s', hd', hc', hmakes'⟩ := h'
  obtain rfl := Clvm.atom.inj (hc.symm.trans (hstate.symm.trans hc'))
  obtain rfl := HashOracle.treeHash_inj hH hd hd'
  exact hmakes.unique hH (hmaker maker d hd hc) hmakes'

/-! ## Carrying out a purchase -/

/-- A call carries out a purchase, paid by a coin: the pricing puzzle is the one
of the state for this action, its price is the amount of the coin, and the
handle gets a slot with the data of the purchase. -/
structure Buys (M : Machine) (K : Constants) (state : XchandlesState) (c : Call Action)
    (cs : List Condition) (coin : PrecommitCoin) (p : Purchase) (handleHash : Bytes)
    (expiration : Clvm) : Prop where
  reads : Call.purchase M.hash c = some p
  pricing_eq : p.pricingHash = state.pricingFor c.action
  hashes_handle : M.hash.treeHashAtom p.handle = some handleHash
  priced : ∃ program d time, p.pricingHash = .atom d ∧ M.hash.treeHash program = some d ∧
    runPricing M program p.pricing.toClvm = some ⟨.atom coin.amount, time⟩ ∧
    p.pricing.buyTime.add time = some expiration
  creates : ∃ counter neighbors ph, M.hash.slotCoin K.handleSlot1stCurryHash
    (handleSlotValue counter (.atom handleHash) neighbors expiration p.data.toClvm) = some ph ∧
    ph ∈ zeroCoins cs

section

variable {M : Machine} {K : Constants} {coin : PrecommitCoin}

/-- Handle hash and expiration are fixed by the purchase. -/
theorem Buys.unique (hH : M.hash.CollisionFree) {state state' : XchandlesState}
    {c c' : Call Action} {cs cs' : List Condition} {p : Purchase} {hh hh' : Bytes} {x x' : Clvm}
    (h : Buys M K state c cs coin p hh x) (h' : Buys M K state' c' cs' coin p hh' x') :
    hh = hh' ∧ x = x' := by
  obtain ⟨program, d, time, hd, hprogram, hrun, hadd⟩ := h.priced
  obtain ⟨program', d', time', hd', hprogram', hrun', hadd'⟩ := h'.priced
  obtain rfl := Clvm.atom.inj (hd.symm.trans hd')
  obtain rfl := HashOracle.treeHash_inj hH hprogram hprogram'
  obtain ⟨-, rfl⟩ := HandlePricingOutput.mk.inj (Option.some.inj (hrun.symm.trans hrun'))
  exact ⟨Option.some.inj (h.hashes_handle.symm.trans h'.hashes_handle),
    Option.some.inj (hadd.symm.trans hadd')⟩

/-- The purchase of a registration. -/
def RegisterRun.purchase {truth solution : Clvm} (r : RegisterRun M K truth solution) : Purchase :=
  ⟨r.s.handlePricing.solution.handle, r.s.other.secret, r.s.other.newRest, .atom r.pricingHash,
    r.s.handlePricing.solution⟩

/-- The purchase of an expiry. -/
def ExpireRun.purchase {truth solution : Clvm} (r : ExpireRun M K truth solution) : Purchase :=
  ⟨r.s.pricing.solution.handle, r.s.other.secret, r.s.other.newRest, .atom r.pricingHash,
    r.s.pricing.solution⟩

theorem RegisterRun.commits {truth solution : Clvm} (r : RegisterRun M K truth solution) :
    r.opening.Commits r.purchase := ⟨r.pricing_eq, rfl, rfl, rfl, rfl⟩

theorem ExpireRun.commits {truth solution : Clvm} (r : ExpireRun M K truth solution) :
    r.opening.Commits r.purchase := ⟨r.pricing_eq, rfl, rfl, rfl, rfl⟩

theorem RegisterRun.builtFor {truth solution : Clvm} (r : RegisterRun M K truth solution)
    (hph : coin.puzzleHash = r.precommitCoin) : BuiltFor M K r.t.state r.opening coin :=
  ⟨_, _, _, r.hashes_catMaker, r.catMaker_eq, by rw [hph]; exact r.makes⟩

theorem ExpireRun.builtFor {truth solution : Clvm} (r : ExpireRun M K truth solution)
    (hph : coin.puzzleHash = r.precommitCoin) : BuiltFor M K r.t.state r.opening coin :=
  ⟨_, _, _, r.hashes_catMaker, r.catMaker_eq, by rw [hph]; exact r.makes⟩

/-- A registration carries out its purchase, paid by the coin it sends to. -/
theorem RegisterRun.buys {truth solution : Clvm} (r : RegisterRun M K truth solution)
    (hamount : .atom coin.amount = r.priced.totalPrice) :
    Buys M K r.t.state ⟨.register, solution⟩ r.conditions coin r.purchase r.handleHash
      r.expiration where
  reads := bind_intro (RegisterSolution.ofClvm?_eq_some.2 r.solution_eq)
    (bind_intro r.hashes_pricing rfl)
  pricing_eq := r.pricing_eq.symm
  hashes_handle := r.hashes_handle
  priced := ⟨_, _, r.priced.registeredTime, rfl, r.hashes_pricing, by
    rw [hamount]; exact r.runs_pricing, r.expiration_eq⟩
  creates := by
    have hnew := r.creates_new
    rw [RegisterSolution.newSlot, r.handleHash_eq] at hnew
    refine ⟨_, _, r.createdNew, hnew, ?_⟩
    rw [conditions, registerConditions]
    split <;> simp [zeroCoins, spendCoin, createHandleCoin, Condition.zeroCoin?, Clvm.nil]

/-- An expiry carries out its purchase, paid by the coin it sends to. -/
theorem ExpireRun.buys {truth solution : Clvm} (r : ExpireRun M K truth solution)
    (hamount : .atom coin.amount = r.priced.totalPrice) :
    Buys M K r.t.state ⟨.expire, solution⟩ r.conditions coin r.purchase r.handleHash
      r.expiration where
  reads := bind_intro (ExpireSolution.ofClvm?_eq_some.2 r.solution_eq)
    (bind_intro r.hashes_pricing rfl)
  pricing_eq := r.pricing_eq.symm
  hashes_handle := r.hashes_handle
  priced := ⟨_, _, r.priced.registeredTime, rfl, r.hashes_pricing, by
    rw [hamount]; exact r.runs_pricing, (Clvm.add_comm ..).trans r.expiration_eq⟩
  creates := by
    refine ⟨_, _, r.created, r.creates, ?_⟩
    rw [conditions, expireConditions, zeroCoins_append]
    refine Multiset.mem_add.2 (Or.inr ?_)
    simp [zeroCoins, spendCoin, createHandleCoin, Condition.zeroCoin?, Clvm.nil]

/-- A registration or an expiry that is paid by a coin carries out the purchase
that the coin commits to. -/
theorem exists_buys {t : XchandlesStateTruth} {c : Call Action} {out : Clvm × List Condition}
    (hc : c.action = .register ∨ c.action = .expire)
    (hrun : c.action.run M K t.toClvm c.solution = some out) (hpay : coin.send payOut ∈ out.2) :
    ∃ o p hh x, o.Commits p ∧ BuiltFor M K t.state o coin ∧
      Buys M K t.state c out.2 coin p hh x := by
  obtain ⟨action, solution⟩ := c
  generalize ht : t.toClvm = truth at hrun
  rcases hc with hc | hc
  · obtain rfl : action = .register := hc
    obtain ⟨r, rfl⟩ := register_eq_some.1 hrun
    obtain ⟨-, hph, hamount⟩ := r.send_mem.1 hpay
    obtain rfl : t = r.t := XchandlesStateTruth.toClvm_injective (ht.trans r.truth_eq)
    exact ⟨_, _, _, _, r.commits, r.builtFor hph, r.buys hamount⟩
  · obtain rfl : action = .expire := hc
    obtain ⟨r, rfl⟩ := expire_eq_some.1 hrun
    obtain ⟨-, hph, hamount⟩ := r.send_mem.1 hpay
    obtain rfl : t = r.t := XchandlesStateTruth.toClvm_injective (ht.trans r.truth_eq)
    exact ⟨_, _, _, _, r.commits, r.builtFor hph, r.buys hamount⟩

/-- **What a precommit coin buys.**  Two registrations or expiries that are paid
by one coin, at states with one CAT maker, carry out the same purchase, which is
the one the coin commits to: the same handle, secret, owner and resolved
launcher ids and the same pricing puzzle with all of its solution.  They create
a slot for the same handle hash with the same expiration, and the price they pay
is the amount of the coin. -/
theorem precommit_binding (hH : M.hash.CollisionFree) {t t' : XchandlesStateTruth}
    (hstate : t'.state.catMakerPuzzleHash = t.state.catMakerPuzzleHash)
    (hmaker : ∀ maker d, M.hash.treeHash maker = some d → t.state.catMakerPuzzleHash = .atom d →
      IsCatMaker M maker)
    {c c' : Call Action} {out out' : Clvm × List Condition}
    (hc : c.action = .register ∨ c.action = .expire)
    (hc' : c'.action = .register ∨ c'.action = .expire)
    (hrun : c.action.run M K t.toClvm c.solution = some out)
    (hrun' : c'.action.run M K t'.toClvm c'.solution = some out')
    (hpay : coin.send payOut ∈ out.2) (hpay' : coin.send payOut ∈ out'.2) :
    ∃ p hh x, (∃ o, BuiltFor M K t.state o coin) ∧
      (∀ o, BuiltFor M K t.state o coin → o.Commits p) ∧
      Buys M K t.state c out.2 coin p hh x ∧ Buys M K t'.state c' out'.2 coin p hh x := by
  have hbinds : t.state.BindsInner M := fun maker d hd hm => (hmaker maker d hd hm).bindsInner hH
  obtain ⟨o, p, hh, x, hp, ho, hbuys⟩ := exists_buys hc hrun hpay
  obtain ⟨o', p', hh', x', hp', ho', hbuys'⟩ := exists_buys hc' hrun' hpay'
  obtain rfl := ho.unique hH hbinds hstate ho'
  obtain rfl := hp.unique hp'
  obtain ⟨rfl, rfl⟩ := hbuys.unique hH hbuys'
  refine ⟨p, hh, x, ⟨o, ho⟩, fun o₁ ho₁ => ?_, hbuys, hbuys'⟩
  rw [← ho.unique hH hbinds rfl ho₁]
  exact hp

end

/-! ## Two purchases -/

namespace UpdateExample

open Example

/-- The precommit coin of a purchase. -/
def purchaseCoin : PrecommitCoin :=
  ⟨defaultCatHash (bytes32 30) (bytes32 31) purchaseInner, intToBytes 7⟩

theorem isCatMaker_sales : ∀ maker d, machine.hash.treeHash maker = some d →
    sales.catMakerPuzzleHash = .atom d → IsCatMaker machine maker := by
  intro maker d hd hstate
  obtain rfl : makerHash = d := Clvm.atom.inj hstate
  rw [HashOracle.treeHash_inj collisionFree hd treeHash_maker]
  exact isCatMaker_defaultCatMakerProgram _ _ 6 _ _

end UpdateExample

/-- Two purchases with one precommit coin, of different slots of the handle, are the same. -/
theorem precommit_binding_purchases : ∃ p hh x,
    (∃ o, BuiltFor UpdateExample.machine Example.constants UpdateExample.sales o
      UpdateExample.purchaseCoin) ∧
    Buys UpdateExample.machine Example.constants UpdateExample.sales
      ⟨.expire, (UpdateExample.purchase [1]).toClvm⟩ UpdateExample.boughtEarlier.conditions
      UpdateExample.purchaseCoin p hh x ∧
    Buys UpdateExample.machine Example.constants UpdateExample.sales
      ⟨.expire, (UpdateExample.purchase [2]).toClvm⟩ UpdateExample.bought.conditions
      UpdateExample.purchaseCoin p hh x := by
  have hpay : UpdateExample.purchaseCoin.send payOut ∈ UpdateExample.boughtEarlier.conditions :=
    UpdateExample.boughtEarlier.send_mem.2 ⟨rfl, rfl, rfl⟩
  have hpay' : UpdateExample.purchaseCoin.send payOut ∈ UpdateExample.bought.conditions :=
    UpdateExample.bought.send_mem.2 ⟨rfl, rfl, rfl⟩
  obtain ⟨p, hh, x, ho, -, hbuys, hbuys'⟩ := @precommit_binding _ _ UpdateExample.purchaseCoin
    UpdateExample.collisionFree ⟨.nil, UpdateExample.sales⟩ ⟨.nil, UpdateExample.sales⟩ rfl
    UpdateExample.isCatMaker_sales ⟨.expire, (UpdateExample.purchase [1]).toClvm⟩
    ⟨.expire, (UpdateExample.purchase [2]).toClvm⟩ _ _ (Or.inr rfl) (Or.inr rfl)
    (expire_eq_some.2 ⟨UpdateExample.boughtEarlier, rfl⟩)
    (expire_eq_some.2 ⟨UpdateExample.bought, rfl⟩) hpay hpay'
  exact ⟨p, hh, x, ho, hbuys, hbuys'⟩

/-! ## The sale of an expired handle -/

namespace Example

/-- The state of a registry that sells expired handles for this price. -/
def salesState : XchandlesState := ⟨.atom makerHash, .atom (bytes32 11), .atom pricingHash⟩

def saleSolution : ExpireSolution where
  pricing := ⟨pricingProgram, ⟨.ofInt 500, .ofInt 400, .atom [104], .nil⟩⟩
  catMaker := ⟨makerProgram, .nil⟩
  other := ⟨⟨.atom (bytes32 20), .atom (bytes32 20)⟩, .atom (bytes32 21), .atom (bytes32 22)⟩
  counter := .nil
  neighbors := .pair (.atom (bytes32 0)) (.atom (bytes32 255))
  oldRest := .nil
  newOwnerInnerPuzzleHash := .atom (bytes32 23)
  newResolvedInnerPuzzleHash := .atom (bytes32 23)

def saleInner : Bytes :=
  precommitInnerHash constants (bytes32 21) (saleSolution.precommitValue salesState)

/-- The slot of the handle before and after the sale. -/
def soldSlot : Clvm :=
  saleSolution.slot handleHash (.atom []) (.ofInt 400) saleSolution.oldRest

def boughtSlot : Clvm :=
  saleSolution.slot handleHash (.ofInt (intFromBytes [] + 1))
    (.ofInt (intFromBytes (intToBytes 366) + intFromBytes (intToBytes 500)))
    saleSolution.other.newRest.toClvm

/-- The precommit coin of the sale. -/
def saleCoin : PrecommitCoin := ⟨defaultCatHash (bytes32 30) (bytes32 31) saleInner, intToBytes 7⟩

/-- A program that returns the puzzle hash of this coin, whatever it is given. -/
def forgedMaker : Clvm := .quoted (.atom saleCoin.puzzleHash)

def forgedHash : Bytes := (Skeleton.ofClvm forgedMaker).hash

/-- A refund that reveals this program as the CAT maker of the coin. -/
def forgedRefund : RefundSolution where
  pricing := ⟨.atom pricingHash, pricingProgram, ⟨.nil, .nil, .nil, .nil⟩⟩
  catMaker := ⟨.atom forgedHash, forgedMaker, .nil⟩
  handle := .nil
  precommitAmount := .ofInt 7
  slotValue := .nil
  newRest := .nil
  refundPuzzleHashHash := .atom (bytes32 40)
  secret := .nil

/-- The programs and atoms that are hashed. -/
def hashed : List Skeleton :=
  [.ofClvm makerProgram, .ofClvm pricingProgram, .ofClvm (.atom [104]), .ofClvm forgedMaker]

/-- What the sale and the refund hash, and the slots of the registry. -/
def saleParts : List (List Skeleton) :=
  [hashed,
    precommitSkeletons constants (bytes32 21) (saleSolution.precommitValue salesState),
    precommitSkeletons constants (bytes32 40) forgedRefund.precommitValue,
    defaultCatMakerSkeletons (bytes32 30) (bytes32 31) saleInner,
    HashOracle.singletonSkeletons (bytes32 1) (bytes32 2) (bytes32 20) (bytes32 23),
    HashOracle.slotSkeletons (bytes32 4) soldSlot,
    HashOracle.slotSkeletons (bytes32 4) boughtSlot,
    HashOracle.slotSkeletons (bytes32 4) (lowSlot .nil),
    HashOracle.slotSkeletons (bytes32 4) highSlot]

theorem part {l : List Skeleton} (h : l ∈ saleParts) : l ⊆ saleParts.flatten :=
  fun _ ht => List.mem_flatten.2 ⟨l, h, ht⟩

def saleMachine : Machine := .clvm (.ofSkeletons saleParts.flatten) (fun _ _ => none) 20

theorem saleMachine_collisionFree : saleMachine.hash.CollisionFree :=
  HashOracle.ofSkeletons_collisionFree (by decide +kernel)

theorem slotCoin_sale {v : Clvm} (h : HashOracle.slotSkeletons (bytes32 4) v ∈ saleParts) :
    saleMachine.hash.slotCoin (bytes32 4) v = some (HashOracle.slotHash (bytes32 4) v) :=
  HashOracle.slotCoin_ofSkeletons (part h)

theorem treeHash_sale {v : Clvm} (h : Skeleton.ofClvm v ∈ hashed) :
    saleMachine.hash.treeHash v = some (Skeleton.ofClvm v).hash :=
  HashOracle.treeHash_ofSkeletons (part (List.mem_cons_self ..) h)

theorem treeHash_saleMaker : saleMachine.hash.treeHash makerProgram = some makerHash :=
  treeHash_sale (v := makerProgram) (by simp [hashed])

theorem salesTruth_eq :
    (XchandlesStateTruth.mk .nil salesState).toClvm = .pair .nil salesState.toClvm := rfl

theorem pricingHash_eq : saleMachine.hash.treeHash pricingProgram = some pricingHash :=
  treeHash_sale (by simp [hashed])

/-- The sale of an expired handle. -/
def sale : ExpireRun saleMachine constants (XchandlesStateTruth.mk .nil salesState).toClvm
    saleSolution.toClvm where
  t := ⟨.nil, salesState⟩
  s := saleSolution
  truth_eq := salesTruth_eq
  solution_eq := rfl
  catMakerHash := makerHash
  pricingHash := pricingHash
  hashes_catMaker := treeHash_saleMaker
  catMaker_eq := rfl
  hashes_pricing := pricingHash_eq
  pricing_eq := rfl
  handleHash := handleHash
  hashes_handle := treeHash_sale (v := .atom [104]) (by simp [hashed])
  priced := ⟨.ofInt 7, .ofInt 366⟩
  runs_pricing := runPricing_quoted ..
  inner := saleInner
  hashes_inner := precommitInnerPuzzleHash_ofSkeletons (r := bytes32 21) (part (by simp [saleParts]))
  precommitCoin := defaultCatHash (bytes32 30) (bytes32 31) saleInner
  runs_catMaker := runCatMaker_default 6
    (defaultCatMaker_ofSkeletons (part (by simp [saleParts])))
  owner := HashOracle.singletonHash (bytes32 1) (bytes32 2) (bytes32 20) (bytes32 23)
  hashes_owner := HashOracle.singletonPuzzleHash_ofSkeletons (m := bytes32 1) (l := bytes32 2)
    (i := bytes32 20) (p := bytes32 23) (part (by simp [saleParts]))
  counter := []
  counter_eq := rfl
  spent := HashOracle.slotHash (bytes32 4) soldSlot
  spends := slotCoin_sale (v := soldSlot) (by simp [saleParts])
  expiration := .ofInt (intFromBytes (intToBytes 366) + intFromBytes (intToBytes 500))
  expiration_eq := Clvm.add_atom _ _
  created := HashOracle.slotHash (bytes32 4) boughtSlot
  creates := slotCoin_sale (v := boughtSlot) (by simp [saleParts])
  resolvedApproval := []
  approves := by
    refine bind_intro (Clvm.eq_atom _) ?_
    rfl

theorem isCatMaker_salesState : ∀ maker d, saleMachine.hash.treeHash maker = some d →
    salesState.catMakerPuzzleHash = .atom d → IsCatMaker saleMachine maker := by
  intro maker d hd hstate
  obtain rfl : makerHash = d := Clvm.atom.inj hstate
  rw [HashOracle.treeHash_inj saleMachine_collisionFree hd treeHash_saleMaker]
  exact isCatMaker_defaultCatMakerProgram _ _ 6 _ _

end Example

end SlotMachine.Xchandles
