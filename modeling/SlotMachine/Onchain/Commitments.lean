import SlotMachine.Onchain.Redemption
import SlotMachine.Xchandles.Precommit
import SlotMachine.Xchandles.Registry

/-!
# What the actions of XCHandles reveal on the chain

`register`, `expire` and `refund` open a precommit coin in their solutions and send it a
message.

* `Reveals`, `Reveals.payments_eq`, `exists_reveals` — **each of these actions makes one
  payment, to the coin that it opens**, and no other action makes any.
* `UsesCat` — the CAT maker is the default one.
* `Honored`, `Redeemed.honored` — **the coin that an action opens is spent in the same
  block**, and pays what was promised.
-/

namespace SlotMachine

namespace Xchandles

section

variable (M : Machine) (K : Constants) (truth solution : Clvm)

/-- An action opens a precommit coin: by which CAT maker, to what, and what it pays. -/
inductive Reveals : Action → Clvm → Opening → Payment → Prop where
  | register (r : RegisterRun M K truth solution) :
      Reveals .register r.s.catMaker.puzzle r.opening
        ⟨payOut, r.precommitCoin, r.priced.totalPrice⟩
  | expire (r : ExpireRun M K truth solution) :
      Reveals .expire r.s.catMaker.puzzle r.opening
        ⟨payOut, r.precommitCoin, r.priced.totalPrice⟩
  | refund (r : RefundRun M K truth solution) :
      Reveals .refund r.s.catMaker.puzzle r.opening
        ⟨refunded, r.precommitCoin, r.s.precommitAmount⟩

end

variable {M : Machine} {K : Constants} {truth solution : Clvm}

theorem RegisterRun.payments_eq (r : RegisterRun M K truth solution) :
    payments r.conditions = {⟨payOut, r.precommitCoin, r.priced.totalPrice⟩} := by
  unfold RegisterRun.conditions registerConditions
  rw [payments_append]
  split <;> rfl

theorem ExpireRun.payments_eq (r : ExpireRun M K truth solution) :
    payments r.conditions = {⟨payOut, r.precommitCoin, r.priced.totalPrice⟩} := by
  unfold ExpireRun.conditions expireConditions
  rw [payments_append]
  rcases expireResolvedApproval_eq_some r.approves with h | ⟨resolved, -, h⟩ <;> rw [h] <;> rfl

/-- The slot that a refund keeps is paid nothing. -/
theorem payments_lastConditions {H : HashOracle} {valid : Bool} {v : Clvm} {last : List Condition}
    (h : lastConditions H K valid v = some last) : payments last = 0 := by
  unfold lastConditions at h
  split at h
  · obtain ⟨c, a, e, d, spent, created, -, -, -, rfl⟩ := keepSlot_eq_some.1 h
    rfl
  · rw [← Option.some.inj h]
    rfl

theorem RefundRun.payments_eq (r : RefundRun M K truth solution) :
    payments r.conditions = {⟨refunded, r.precommitCoin, r.s.precommitAmount⟩} := by
  unfold RefundRun.conditions refundConditions
  have happend : ∀ (c d : Condition) (cs : List Condition), c :: d :: cs = [c, d] ++ cs :=
    fun _ _ _ => rfl
  rw [happend, payments_append, payments_lastConditions r.last_eq, add_zero]
  rfl

/-- **An action pays the coin that it opens**, and nothing else. -/
theorem Reveals.payments_eq {action : Action} {maker : Clvm} {o : Opening} {p : Payment}
    (h : Reveals M K truth solution action maker o p) {truth' : Clvm} {cs : List Condition}
    (hrun : action.run M K truth solution = some (truth', cs)) : payments cs = {p} := by
  cases h with
  | register r =>
      have hout := (register_eq_some.2 ⟨r, rfl⟩).symm.trans hrun
      rw [← (Prod.mk.inj (Option.some.inj hout)).2]
      exact r.payments_eq
  | expire r =>
      have hout := (expire_eq_some.2 ⟨r, rfl⟩).symm.trans hrun
      rw [← (Prod.mk.inj (Option.some.inj hout)).2]
      exact r.payments_eq
  | refund r =>
      have hout := (refund_eq_some.2 ⟨r, rfl⟩).symm.trans hrun
      rw [← (Prod.mk.inj (Option.some.inj hout)).2]
      exact r.payments_eq

/-- **Whoever pays opens a coin.** -/
theorem exists_reveals {action : Action} {truth' : Clvm} {cs : List Condition}
    (hrun : action.run M K truth solution = some (truth', cs)) (hcs : payments cs ≠ 0) :
    ∃ maker o p, Reveals M K truth solution action maker o p := by
  obtain ⟨f, hf⟩ := exists_explains hrun
  cases hf with
  | register r => exact ⟨_, _, _, .register r⟩
  | expire r => exact ⟨_, _, _, .expire r⟩
  | refund r => exact ⟨_, _, _, .refund r⟩
  | extend r => exact absurd rfl hcs
  | oracle r => exact absurd rfl hcs
  | initiateUpdate r => exact absurd rfl hcs
  | executeUpdate r => exact absurd rfl hcs
  | delegatedState stateHash sender => exact absurd rfl hcs

/-- The coin was made by the CAT maker, as the action says. -/
theorem Reveals.makes {action : Action} {maker : Clvm} {o : Opening} {p : Payment}
    (h : Reveals M K truth solution action maker o p) :
    ∃ s, Makes M K maker s o p.puzzleHash := by
  cases h with
  | register r => exact ⟨_, r.makes⟩
  | expire r => exact ⟨_, r.makes⟩
  | refund r => exact ⟨_, r.makes⟩

end Xchandles

namespace Onchain

open Lineage Consensus

/-- The CAT maker makes the CATs of the precommit coins. -/
def UsesCat (M₀ : Machine) (Q : Precommits) (maker : Clvm) : Prop :=
  ∀ inner rest, M₀.eval maker (.pair (.atom inner) rest)
    = (Rue.defaultCatMaker M₀.hash (.atom Q.cat.modHash) (.atom Q.tailHashHash)
      (.pair (.atom inner) rest)).map .atom

/-- What a precommit coin was made from, by its hashes. -/
def Hashed (H : HashOracle) (o : Xchandles.Opening) (refundHash valueHash : Bytes) : Prop :=
  o.refundPuzzleHashHash = .atom refundHash ∧
    ∃ d, H.treeHash o.value.toClvm = some d ∧ H.treeHashAtom (.atom d) = some valueHash

section

variable {Q : Precommits} {M₀ : Machine} {K : Xchandles.Constants}

/-- A coin that the default CAT maker made commits to its opening. -/
theorem exists_commits (hfirst : K.precommit1stCurryHash = Q.firstHash) {maker solution : Clvm}
    (hmaker : UsesCat M₀ Q maker) {o : Xchandles.Opening} {ph : Bytes}
    (h : Xchandles.Makes M₀ K maker solution o ph) :
    ∃ refundHash valueHash, Hashed M₀.hash o refundHash valueHash ∧
      Q.Commits M₀.hash refundHash valueHash ph := by
  obtain ⟨inner, hinner, hrun⟩ := h
  obtain ⟨d, valueHash, hd, hvalue, hcurry⟩ := Xchandles.precommitInnerPuzzleHash_eq_some.1 hinner
  obtain ⟨refundHash, hrefund⟩ :=
    HashOracle.atom_of_curryTreeHash hcurry _ List.mem_cons_self
  rw [hrefund, hfirst] at hcurry
  rw [runCatMaker_eq_some, hmaker, Option.map_eq_some_iff] at hrun
  obtain ⟨_, hph, heq⟩ := hrun
  rw [CatLayer.defaultCatMaker_eq, Clvm.atom.inj heq] at hph
  exact ⟨refundHash, valueHash, ⟨hrefund, d, hd, hvalue⟩, inner, hcurry, hph⟩

/-- The block spends a coin that commits to the opening.  It was created early enough, is worth
what the action says, and pays where the action says. -/
def Honored (Q : Precommits) (H : HashOracle) (blocks : List Consensus.Block)
    (b : Consensus.Block) (o : Xchandles.Opening) (p : Payment) : Prop :=
  ∃ refundHash valueHash, Hashed H o refundHash valueHash ∧ ∃ s ∈ b.spends,
    Q.Commits H refundHash valueHash s.coin.puzzleHash ∧ s.coin.puzzleHash = p.puzzleHash ∧
    p.amount = .ofInt s.coin.amount ∧ PaysOut Q H s p.spendMode refundHash ∧
    ∀ b₀ ∈ blocks, b₀.Creates s.coin → (b₀.height : ℤ) + Q.relativeBlockHeight < b.height

/-- The coin of a payment is spent, and pays what the payment says. -/
theorem Redeemed.exists_spend {H : HashOracle} {blocks : List Consensus.Block}
    {b : Consensus.Block} {A : Type} {steps : List (Step A)} {spendMode : Spend → Clvm}
    (h : Redeemed Q H blocks b steps spendMode) {x : Step A} (hx : x ∈ steps) {p : Payment}
    (hp : payments x.conditions = {p}) {refundHash valueHash : Bytes}
    (hcommits : Q.Commits H refundHash valueHash p.puzzleHash) :
    ∃ s ∈ b.spends, s.coin.puzzleHash = p.puzzleHash ∧ p.amount = .ofInt s.coin.amount ∧
      PaysOut Q H s p.spendMode refundHash ∧
      ∀ b₀ ∈ blocks, b₀.Creates s.coin → (b₀.height : ℤ) + Q.relativeBlockHeight < b.height := by
  classical
  have hmem : p ∈ (steps.map fun x => payments x.conditions).sum := by
    obtain ⟨before, after, rfl⟩ := List.append_of_mem hx
    rw [List.map_append, List.sum_append, List.map_cons, List.sum_cons, hp]
    exact Multiset.mem_add.2 (Or.inr (Multiset.mem_add.2 (Or.inl (Multiset.mem_singleton_self p))))
  have hfiltered : p ∈ (steps.map fun x => payments x.conditions).sum.filter
      (fun p => Q.IsPrecommit H p.puzzleHash) :=
    Multiset.mem_filter.2 ⟨hmem, refundHash, valueHash, hcommits⟩
  rw [h.payments_eq, Multiset.mem_coe] at hfiltered
  obtain ⟨s, hs, rfl⟩ := List.mem_map.1 hfiltered
  obtain ⟨hs, hprecommit⟩ := List.mem_filter.1 hs
  exact ⟨s, hs, rfl, rfl, h.pays s hs refundHash valueHash hcommits,
    h.old s hs ⟨refundHash, valueHash, hcommits⟩⟩

/-- **The coin that an action opens is spent in the same block.** -/
theorem Redeemed.honored {blocks : List Consensus.Block} {b : Consensus.Block}
    {steps : List (Step (Xchandles.contract M₀ K).Action)} {spendMode : Spend → Clvm}
    (h : Redeemed Q M₀.hash blocks b steps spendMode)
    (hfirst : K.precommit1stCurryHash = Q.firstHash) {x : Step (Xchandles.contract M₀ K).Action}
    (hx : x ∈ steps) (hrun : (Xchandles.contract M₀ K).run x.call.action x.truth x.call.solution
      = some (x.truth', x.conditions)) {maker : Clvm} {o : Xchandles.Opening} {p : Payment}
    (hreveals : Xchandles.Reveals M₀ K x.truth x.call.solution x.call.action maker o p)
    (hmaker : UsesCat M₀ Q maker) : Honored Q M₀.hash blocks b o p := by
  obtain ⟨solution, hmakes⟩ := hreveals.makes
  obtain ⟨refundHash, valueHash, hhashed, hcommits⟩ := exists_commits hfirst hmaker hmakes
  obtain ⟨s, hs, hph, hamount, hpays, hold⟩ :=
    h.exists_spend hx (hreveals.payments_eq hrun) hcommits
  exact ⟨refundHash, valueHash, hhashed, s, hs, hph ▸ hcommits, hph, hamount, hpays, hold⟩

end

end Onchain

end SlotMachine
