import SlotMachine.Onchain.Refinement

/-!
# Messages to coins that are named by their amounts

A registry tells a precommit coin what to do with a message that names the coin by its
puzzle hash and its amount.

* `Payment`, `payments` — these messages in the conditions of an action.
* `sentPayments`, `receivedPayments` — those that a spend sends in the name of the
  singleton, and those that it receives.
* `Mirrors.payments_eq` — **the payments of a block are those of its steps**.
-/

namespace SlotMachine

/-- A message to a coin: what it says, and the coin. -/
structure Payment where
  spendMode : Clvm
  puzzleHash : Bytes
  amount : Clvm
  deriving DecidableEq

/-- The payment that a condition makes. -/
def Condition.payment? : Condition → Option Payment
  | sendMessage 19 spendMode [.atom puzzleHash, amount] => some ⟨spendMode, puzzleHash, amount⟩
  | _ => none

/-- The payments in a list of conditions. -/
def payments (cs : List Condition) : Multiset Payment := cs.filterMap Condition.payment?

@[simp] theorem payments_append (cs ds : List Condition) :
    payments (cs ++ ds) = payments cs + payments ds := by
  simp [payments, List.filterMap_append]

theorem payments_cons_of_none {c : Condition} (cs : List Condition) (h : c.payment? = none) :
    payments (c :: cs) = payments cs := by
  rw [payments, List.filterMap_cons_none h, payments]

namespace Consensus

variable (owned : Bytes → Prop)

open Classical in
/-- The payment that a message is, if a coin of the singleton sent it. -/
noncomputable def paymentMessage? : Message → Option Payment
  | ⟨19, spendMode, [.atom sender], [.atom puzzleHash, amount]⟩ =>
      if owned sender then some ⟨spendMode, puzzleHash, amount⟩ else none
  | _ => none

/-- The payments that a spend makes. -/
noncomputable def sentPayments (s : Spend) : Multiset Payment :=
  (sentBy s).filterMap (paymentMessage? owned)

/-- The payments that a spend receives. -/
noncomputable def receivedPayments (s : Spend) : Multiset Payment :=
  (receivedBy s).filterMap (paymentMessage? owned)

variable {owned}

theorem paymentMessage?_eq_some {m : Message} {p : Payment} :
    paymentMessage? owned m = some p ↔ ∃ sender, owned sender ∧
      m = ⟨puzzlePuzzleAmount, p.spendMode, [.atom sender], [.atom p.puzzleHash, p.amount]⟩ := by
  constructor
  · intro h
    unfold paymentMessage? at h
    split at h
    · split at h
      · obtain rfl := Option.some.inj h
        exact ⟨_, ‹_›, rfl⟩
      · cases h
    · cases h
  · rintro ⟨sender, howned, rfl⟩
    exact if_pos howned

/-- Only coins of the singleton pay. -/
theorem sentPayments_eq_zero {s : Spend} (h : ¬ owned s.coin.puzzleHash) :
    sentPayments owned s = 0 := by
  have hnone : (sentBy s).filterMap (paymentMessage? owned) = [] := by
    refine List.filterMap_eq_nil_iff.2 fun m hm => Option.eq_none_iff_forall_ne_some.2 ?_
    intro p hp
    obtain ⟨sender, howned, rfl⟩ := paymentMessage?_eq_some.1 hp
    obtain ⟨mode, message, receiver, -, heq⟩ := mem_sentBy.1 hm
    obtain ⟨rfl, -, hsender, -⟩ := Message.mk.inj heq
    obtain rfl : sender = s.coin.puzzleHash := by
      simpa [commitment, puzzlePuzzleAmount] using hsender
    exact h howned
  rw [sentPayments, hnone, Multiset.coe_nil]

/-- What a coin of the singleton pays can be read from its conditions. -/
theorem sentPayments_eq {s : Spend} (howned : owned s.coin.puzzleHash) :
    sentPayments owned s = payments s.conditions := by
  unfold sentPayments payments sentBy
  rw [List.filterMap_filterMap]
  refine congrArg _ (List.filterMap_congr fun c _ => ?_)
  cases hpayment : c.payment? with
  | some p =>
      unfold Condition.payment? at hpayment
      split at hpayment
      · obtain rfl := Option.some.inj hpayment
        exact (paymentMessage?_eq_some (p := ⟨_, _, _⟩)).2 ⟨_, howned, rfl⟩
      · cases hpayment
  | none =>
      refine Option.eq_none_iff_forall_ne_some.2 fun p hp => ?_
      obtain ⟨m, hm, hmessage⟩ := Option.bind_eq_some_iff.1 hp
      obtain ⟨sender, -, rfl⟩ := paymentMessage?_eq_some.1 hmessage
      cases c <;> simp only [sent?, Option.some.injEq, reduceCtorEq] at hm
      obtain ⟨rfl, rfl, -, rfl⟩ := Message.mk.inj hm
      cases hpayment

/-- A spend receives payments to its own coin. -/
theorem mem_receivedPayments {s : Spend} {p : Payment} (h : p ∈ receivedPayments owned s) :
    p.puzzleHash = s.coin.puzzleHash ∧ p.amount = .ofInt s.coin.amount := by
  obtain ⟨m, hm, hp⟩ := List.mem_filterMap.1 (Multiset.mem_coe.1 h)
  obtain ⟨sender, -, rfl⟩ := paymentMessage?_eq_some.1 hp
  obtain ⟨mode, message, from', -, heq⟩ := mem_receivedBy.1 hm
  obtain ⟨rfl, -, -, hreceiver⟩ := Message.mk.inj heq
  simpa [commitment, puzzlePuzzleAmount] using hreceiver

/-- **The payments of a block that are made are those that are received.** -/
theorem Block.Valid.payments_eq {M : Machine} {l l' : Ledger} {b : Block} (h : b.Valid M l l') :
    (b.spends.map (sentPayments owned)).sum = (b.spends.map (receivedPayments owned)).sum :=
  h.channel_eq (paymentMessage? owned)

end Consensus

namespace Onchain

open Consensus Settlement

variable {P : Programs} {M M₀ : Machine} {R : Contract M₀} {kinds : List Bytes}
  {program : R.Action → Clvm} {tree : Merkle.Tree Bytes}

/-- The steps of a turn pay what its conditions say. -/
theorem payments_actionConditions {A : Type} (t : Turn A) :
    payments t.actionConditions = (t.steps.map fun x => payments x.conditions).sum := by
  unfold Turn.actionConditions
  induction t.steps with
  | nil => rfl
  | cons step steps ih =>
      rw [List.map_cons, List.reverse_cons, List.flatten_append, payments_append, ih,
        List.flatten_singleton, List.map_cons, List.sum_cons, add_comm]

theorem Turn.Fits.payments_eq {t : Turn R.Action} (h : t.Fits P M R) :
    payments t.spend.conditions = (t.steps.map fun x => payments x.conditions).sum := by
  obtain ⟨inner, ph, -, -, hconditions⟩ := h.conditions_eq
  rw [hconditions, payments_cons_of_none _ rfl, payments_cons_of_none _ rfl,
    payments_cons_of_none _ rfl, payments_actionConditions]

/-- The payments of all turns. -/
theorem sum_payments_flatMap {A : Type} (turns : List (Turn A)) :
    ((turns.flatMap Turn.steps).map fun x => payments x.conditions).sum
      = (turns.map fun t => (t.steps.map fun x => payments x.conditions).sum).sum := by
  induction turns with
  | nil => rfl
  | cons t turns ih =>
      rw [List.flatMap_cons, List.map_append, List.sum_append, ih, List.map_cons, List.sum_cons]

/-- A step of a block is a run of its action. -/
theorem Mirrors.run_eq {b : Consensus.Block} {e : Event R.Action} {turns : List (Turn R.Action)}
    (h : Mirrors P M R kinds b e turns) {x : Step R.Action} (hx : x ∈ e.steps) :
    R.run x.call.action x.truth x.call.solution = some (x.truth', x.conditions) := by
  rw [h.steps_eq] at hx
  obtain ⟨t, ht, hx⟩ := List.mem_flatMap.1 hx
  exact spend_mem (h.fits t ht).runs x hx

/-- **The payments that the steps of a block make are those that its spends receive.** -/
theorem Mirrors.payments_eq {l l' : Ledger} {b : Consensus.Block} {e : Event R.Action}
    {turns : List (Turn R.Action)} (h : Mirrors P M R kinds b e turns) (hb : b.Valid M l l')
    (hP : P.Lawful M R kinds program tree) :
    (e.steps.map fun x => payments x.conditions).sum
      = (b.spends.map (receivedPayments (P.Owned M.hash))).sum := by
  classical
  have hsent : turns.map (sentPayments (P.Owned M.hash) ∘ Turn.spend)
      = turns.map fun t => (t.steps.map fun x => payments x.conditions).sum :=
    List.map_congr_left fun t ht => by
      rw [Function.comp_apply, sentPayments_eq ((h.fits t ht).owned hP), (h.fits t ht).payments_eq]
  rw [← hb.payments_eq, sum_map_filter (fun s => P.Owned M.hash s.coin.puzzleHash) _
    fun s _ hs => sentPayments_eq_zero hs, ← h.spends, List.map_map, hsent, h.steps_eq,
    sum_payments_flatMap]

end Onchain

end SlotMachine
