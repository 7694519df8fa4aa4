import SlotMachine.Chain.Consensus
import SlotMachine.Singleton.Continuity

/-!
# Slots and the messages that spend them

What nodes see of the slots of a registry: puzzle hashes, and messages that carry nil from
a singleton to one of them.

* `IsSlot` — the puzzle hashes of slots of some kinds.
* `Contract.Slotted`, `RegistryKind.slotted` — **the actions of both registries send to
  slots of their own kinds only**, and never in the name of a coin.
* `slotMessage?`, `sentSlots`, `receivedSlots` — the slots that a spend of the singleton
  sends nil to, and those that receive it; `Block.Valid.slots_eq` says that they are the
  same.
-/

namespace SlotMachine

/-- The puzzle hash of a slot of one of the kinds. -/
def IsSlot (H : HashOracle) (kinds : List Bytes) (ph : Bytes) : Prop :=
  ∃ kind ∈ kinds, ∃ valueHash, H.getSlotPuzzleHash kind valueHash = some ph

theorem isSlot_of_slotCoin {H : HashOracle} {kinds : List Bytes} {kind ph : Bytes} {v : Clvm}
    (hkind : kind ∈ kinds) (h : H.slotCoin kind v = some ph) : IsSlot H kinds ph := by
  obtain ⟨d, -, hd⟩ := HashOracle.slotCoin_eq_some.1 h
  exact ⟨kind, hkind, d, hd⟩

/-- The condition sends no message in the name of the coin alone. -/
def Condition.Anonymous : Condition → Prop
  | sendMessage mode _ _ => mode = puzzlePuzzle ∨ mode = puzzlePuzzleAmount
  | _ => True

/-- The promises of the actions about slots and messages. -/
structure Contract.Slotted {M : Machine} (R : Contract M) (kinds : List Bytes) : Prop where
  spends : ∀ {a : R.Action} {truth solution truth' : Clvm} {cs : List Condition},
    R.run a truth solution = some (truth', cs) → ∀ ph ∈ slotSpends cs, IsSlot M.hash kinds ph
  anonymous : ∀ {a : R.Action} {truth solution truth' : Clvm} {cs : List Condition},
    R.run a truth solution = some (truth', cs) → ∀ c ∈ cs, c.Anonymous

/-! ## The two registries -/

namespace Xchandles

variable {M : Machine} {K : Constants}

theorem Explains.anonymous {action : Action} {truth solution : Clvm} {cs : List Condition}
    {f : Footprint} (h : Explains M K truth solution action cs f) : ∀ c ∈ cs, c.Anonymous := by
  cases h with
  | register r =>
      unfold RegisterRun.conditions registerConditions
      refine List.forall_mem_append.2 ⟨?_, ?_⟩
      · simp [Condition.Anonymous, spendCoin, createHandleCoin]
      · split
        · exact List.forall_mem_nil _
        · exact List.forall_mem_singleton.2 trivial
  | expire r =>
      unfold ExpireRun.conditions expireConditions
      refine List.forall_mem_append.2 ⟨?_, ?_⟩
      · rcases expireResolvedApproval_eq_some r.approves with hnone | ⟨resolved, -, hone⟩
        · rw [hnone]
          exact List.forall_mem_nil _
        · rw [hone]
          exact List.forall_mem_singleton.2 trivial
      · simp [Condition.Anonymous, spendCoin, createHandleCoin]
  | extend r =>
      simp [ExtendRun.conditions, extendConditions, Condition.Anonymous, spendCoin,
        createHandleCoin]
  | oracle r => simp [OracleRun.conditions, Condition.Anonymous, spendCoin, createHandleCoin]
  | initiateUpdate r =>
      simp [InitiateRun.conditions, Condition.Anonymous, spendCoin, createHandleCoin]
  | executeUpdate r =>
      simp [ExecuteRun.conditions, Condition.Anonymous, spendCoin, createHandleCoin]
  | refund r =>
      unfold RefundRun.conditions refundConditions
      refine List.forall_mem_cons.2 ⟨Or.inr rfl, List.forall_mem_cons.2 ⟨trivial, ?_⟩⟩
      have hlast := r.last_eq
      unfold lastConditions at hlast
      split at hlast
      · obtain ⟨c, a, e, d, spent, created, -, -, -, hcs⟩ := keepSlot_eq_some.1 hlast
        rw [hcs]
        simp [Condition.Anonymous, spendCoin, createHandleCoin]
      · rw [← Option.some.inj hlast]
        exact List.forall_mem_nil _
  | delegatedState d sender => exact List.forall_mem_singleton.2 trivial

/-- The kinds of slots of XCHandles. -/
def slotKinds (K : Constants) : List Bytes := [K.handleSlot1stCurryHash, K.updateSlot1stCurryHash]

theorem slotted (M : Machine) (K : Constants) : (contract M K).Slotted (slotKinds K) where
  spends := by
    intro a truth solution truth' cs h ph hph
    obtain ⟨f, hf⟩ := exists_explains h
    obtain ⟨item, -, hitem⟩ := hf.matches.consumed.exists_of_mem hph
    cases item with
    | handle v => exact isSlot_of_slotCoin (by simp [slotKinds]) hitem
    | update v => exact isSlot_of_slotCoin (by simp [slotKinds]) hitem
  anonymous := by
    intro a truth solution truth' cs h
    obtain ⟨f, hf⟩ := exists_explains h
    exact hf.anonymous

end Xchandles

namespace Catalog

variable {M : Machine} {K : Constants}

theorem Explains.anonymous {action : Action} {truth solution : Clvm} {cs : List Condition}
    {f : Footprint} (h : Explains M K truth solution action cs f) : ∀ c ∈ cs, c.Anonymous := by
  cases h with
  | register r =>
      simp [RegisterRun.conditions, registerConditions, Condition.Anonymous, spendCoin,
        createSlotCoin]
  | refund r =>
      unfold RefundRun.conditions refundConditions
      refine List.forall_mem_append.2 ⟨?_,
        List.forall_mem_cons.2 ⟨trivial, List.forall_mem_singleton.2 (Or.inr rfl)⟩⟩
      have hslot := r.slot_eq
      unfold slotConditions at hslot
      split at hslot
      · obtain ⟨n, c, spent, created, -, -, -, hcs⟩ := keepSlot_eq_some.1 hslot
        rw [hcs]
        simp [Condition.Anonymous, spendCoin, createSlotCoin]
      · rw [← Option.some.inj hslot]
        exact List.forall_mem_nil _
  | delegatedState d sender => exact List.forall_mem_singleton.2 trivial

/-- The kind of slots of CATalog. -/
def slotKinds (K : Constants) : List Bytes := [K.slot1stCurryHash]

theorem slotted (M : Machine) (K : Constants) : (contract M K).Slotted (slotKinds K) where
  spends := by
    intro a truth solution truth' cs h ph hph
    obtain ⟨f, hf⟩ := exists_explains h
    obtain ⟨item, hmem, hitem⟩ := hf.matches.consumed.exists_of_mem hph
    -- prelaunchers are created only
    obtain ⟨m, -, rfl⟩ := List.mem_map.1 (Multiset.mem_coe.1 hmem)
    exact isSlot_of_slotCoin (by simp [slotKinds]) hitem
  anonymous := by
    intro a truth solution truth' cs h
    obtain ⟨f, hf⟩ := exists_explains h
    exact hf.anonymous

end Catalog

/-- The kinds of slots of a registry. -/
def RegistryKind.slotKinds : RegistryKind → List Bytes
  | xchandles K => Xchandles.slotKinds K
  | catalog K => Catalog.slotKinds K

/-- **The actions of both registries keep the promises.** -/
theorem RegistryKind.slotted (M : Machine) (kind : RegistryKind) :
    (kind.contract M).Slotted kind.slotKinds := by
  cases kind with
  | xchandles K => exact Xchandles.slotted M K
  | catalog K => exact Catalog.slotted M K

/-! ## Messages to slots -/

namespace Consensus

variable (owned slot : Bytes → Prop)

open Classical in
/-- The slot that a message lets be spent: it carries nil, from a coin of the singleton to
a slot, both by their puzzle hashes. -/
noncomputable def slotMessage? : Message → Option Bytes
  | ⟨18, .atom [], [.atom sender], [.atom receiver]⟩ =>
      if owned sender ∧ slot receiver then some receiver else none
  | _ => none

/-- The slots that a spend sends nil to. -/
noncomputable def sentSlots (s : Spend) : Multiset Bytes :=
  (sentBy s).filterMap (slotMessage? owned slot)

/-- The slots that receive nil in a spend. -/
noncomputable def receivedSlots (s : Spend) : Multiset Bytes :=
  (receivedBy s).filterMap (slotMessage? owned slot)

variable {owned slot}

theorem slotMessage?_eq_some {m : Message} {ph : Bytes} :
    slotMessage? owned slot m = some ph ↔ ∃ sender, owned sender ∧ slot ph ∧
      m = ⟨puzzlePuzzle, .nil, [.atom sender], [.atom ph]⟩ := by
  constructor
  · intro h
    unfold slotMessage? at h
    split at h
    · split at h
      · obtain rfl := Option.some.inj h
        exact ⟨_, ‹_ ∧ _›.1, ‹_ ∧ _›.2, rfl⟩
      · cases h
    · cases h
  · rintro ⟨sender, howned, hslot, rfl⟩
    exact if_pos ⟨howned, hslot⟩

/-- Only coins of the singleton send to slots … -/
theorem sentSlots_eq_zero {s : Spend} (h : ¬ owned s.coin.puzzleHash) :
    sentSlots owned slot s = 0 := by
  have hnone : (sentBy s).filterMap (slotMessage? owned slot) = [] := by
    refine List.filterMap_eq_nil_iff.2 fun m hm => Option.eq_none_iff_forall_ne_some.2 ?_
    intro ph hph
    obtain ⟨sender, howned, -, rfl⟩ := slotMessage?_eq_some.1 hph
    obtain ⟨mode, message, receiver, -, heq⟩ := mem_sentBy.1 hm
    obtain ⟨rfl, -, hsender, -⟩ := Message.mk.inj heq
    obtain rfl : sender = s.coin.puzzleHash := by
      simpa [commitment, puzzlePuzzle] using hsender
    exact h howned
  rw [sentSlots, hnone, Multiset.coe_nil]

/-- … and only slots receive it. -/
theorem receivedSlots_eq_zero {s : Spend} (h : ¬ slot s.coin.puzzleHash) :
    receivedSlots owned slot s = 0 := by
  have hnone : (receivedBy s).filterMap (slotMessage? owned slot) = [] := by
    refine List.filterMap_eq_nil_iff.2 fun m hm => Option.eq_none_iff_forall_ne_some.2 ?_
    intro ph hph
    obtain ⟨_, -, hslot, rfl⟩ := slotMessage?_eq_some.1 hph
    obtain ⟨mode, message, sender, -, heq⟩ := mem_receivedBy.1 hm
    obtain ⟨rfl, -, -, hreceiver⟩ := Message.mk.inj heq
    obtain rfl : ph = s.coin.puzzleHash := by
      simpa [commitment, puzzlePuzzle] using hreceiver
    exact h hslot
  rw [receivedSlots, hnone, Multiset.coe_nil]

/-- What a coin of the singleton sends to slots can be read from its conditions. -/
theorem sentSlots_eq {s : Spend} (howned : owned s.coin.puzzleHash)
    (hslots : ∀ ph ∈ slotSpends s.conditions, slot ph) :
    sentSlots owned slot s = slotSpends s.conditions := by
  unfold sentSlots slotSpends sentBy
  rw [List.filterMap_filterMap]
  refine congrArg _ (List.filterMap_congr fun c hc => ?_)
  cases hspend : c.slotSpend? with
  | some ph =>
      have hslot : slot ph :=
        hslots ph (Multiset.mem_coe.2 (List.mem_filterMap.2 ⟨c, hc, hspend⟩))
      unfold Condition.slotSpend? at hspend
      split at hspend
      · obtain rfl := Option.some.inj hspend
        exact slotMessage?_eq_some.2 ⟨_, howned, hslot, rfl⟩
      · cases hspend
  | none =>
      refine Option.eq_none_iff_forall_ne_some.2 fun ph hph => ?_
      obtain ⟨m, hm, hslot⟩ := Option.bind_eq_some_iff.1 hph
      obtain ⟨sender, -, -, rfl⟩ := slotMessage?_eq_some.1 hslot
      cases c <;> simp only [sent?, Option.some.injEq, reduceCtorEq] at hm
      obtain ⟨rfl, rfl, -, rfl⟩ := Message.mk.inj hm
      cases hspend

/-- **The slots of a block that are sent nil are those that receive it.** -/
theorem Block.Valid.slots_eq {M : Machine} {l l' : Ledger} {b : Block} (h : b.Valid M l l') :
    (b.spends.map (sentSlots owned slot)).sum = (b.spends.map (receivedSlots owned slot)).sum :=
  h.channel_eq (slotMessage? owned slot)

end Consensus

end SlotMachine
