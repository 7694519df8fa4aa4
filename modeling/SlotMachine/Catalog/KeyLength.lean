import SlotMachine.Catalog.Uniqueness

/-!
# CATalog: how long the keys are

Software that follows the registry reads the three keys of a slot as hashes of
32 bytes.  The registry does not check the length of the TAIL that is
registered, and every other key of a slot is an older key.  So the slots of a
history can be read exactly if every TAIL registered in it has 32 bytes.

* `WellFormed` — a slot whose keys are hashes.
* `wellFormed_settles` — **one block**: if its registrations are of hashes, all
  slots it touches are well-formed.
* `slots_wellFormed_iff` — **the slots of a history are well-formed exactly if
  the registered TAILs are hashes**.
-/

namespace SlotMachine.Catalog

open Settlement SortedList
open Rewriting (Rewrite forall_moves forall_live)

/-- An atom of 32 bytes. -/
def IsHash (v : Clvm) : Prop := ∃ b, v = .atom b ∧ b.length = 32

/-- A slot that can be read: its key and its neighbours are hashes. -/
def WellFormed (v : Clvm) : Prop :=
  ∃ c k l r, v = slotValue c k l r ∧ IsHash k ∧ IsHash l ∧ IsHash r

/-- A slot whose key is a hash. -/
def HasHashKey (v : Clvm) : Prop := ∃ k, keyOf v = some k ∧ IsHash k

theorem WellFormed.hasHashKey {v : Clvm} (h : WellFormed v) : HasHashKey v := by
  obtain ⟨c, k, l, r, rfl, hk, -, -⟩ := h
  exact ⟨k, rfl, hk⟩

theorem wellFormed_slotValue {c k l r : Clvm} :
    WellFormed (slotValue c k l r) ↔ IsHash k ∧ IsHash l ∧ IsHash r := by
  constructor
  · rintro ⟨c', k', l', r', h, hk, hl, hr⟩
    simp only [slotValue, Clvm.pair.injEq] at h
    obtain ⟨-, rfl, rfl, rfl⟩ := h
    exact ⟨hk, hl, hr⟩
  · rintro ⟨hk, hl, hr⟩
    exact ⟨c, k, l, r, rfl, hk, hl, hr⟩

theorem wellFormed_of_nodeOf {v w : Clvm} (h : nodeOf w = nodeOf v) (hv : WellFormed v) :
    WellFormed w := by
  obtain ⟨c, k, l, r, rfl, hparts⟩ := hv
  obtain ⟨c', rfl⟩ := nodeOf_eq_some h
  exact wellFormed_slotValue.2 hparts

/-! ## One step -/

section

variable {M : Machine} {K : Constants} {action : Action} {truth solution : Clvm}
variable {cs : List Condition} {f : Footprint}

/-- A step that registers no TAIL but hashes keeps what it replaces well-formed. -/
theorem Explains.wellFormed_moves (h : Explains M K truth solution action cs f)
    (htail : ∀ t, Call.registeredTail ⟨action, solution⟩ = some t → IsHash t) :
    ∀ m ∈ f.moves, WellFormed m.1 → WellFormed m.2 := by
  cases h with
  | register r =>
      have hnew := htail _ r.registeredTail
      rw [r.tail_eq] at hnew
      intro m hm hfirst
      rcases List.mem_pair.1 hm with rfl | rfl
      · obtain ⟨hk, hl, -⟩ := wellFormed_slotValue.1 hfirst
        exact wellFormed_slotValue.2 ⟨hk, hl, hnew⟩
      · obtain ⟨hk, -, hr⟩ := wellFormed_slotValue.1 hfirst
        exact wellFormed_slotValue.2 ⟨hk, hnew, hr⟩
  | refund r =>
      exact fun m hm =>
        wellFormed_of_nodeOf (((Explains.refund r).nodeOf_eq nofun).2.2 m hm)
  | delegatedState d sender => exact fun m hm => absurd hm List.not_mem_nil

/-- The new slot is well-formed if its TAIL and the keys of the neighbours are hashes. -/
theorem Explains.wellFormed_inserted (h : Explains M K truth solution action cs f)
    (htail : ∀ t, Call.registeredTail ⟨action, solution⟩ = some t → IsHash t)
    (hkeys : ∀ m ∈ f.moves, HasHashKey m.1) : ∀ v ∈ f.inserted, WellFormed v := by
  cases h with
  | register r =>
      have hleft := hkeys _ (List.mem_cons_self ..)
      have hright := hkeys _ (List.mem_cons_of_mem _ (List.mem_cons_self ..))
      obtain ⟨left, hl, hleft⟩ := hleft
      obtain ⟨right, hr, hright⟩ := hright
      obtain rfl := Option.some.inj hl
      obtain rfl := Option.some.inj hr
      intro v hv
      rw [List.mem_singleton.1 hv]
      exact wellFormed_slotValue.2 ⟨htail _ r.registeredTail, hleft, hright⟩
  | refund r =>
      rw [((Explains.refund r).nodeOf_eq nofun).1]
      exact fun v hv => absurd hv List.not_mem_nil
  | delegatedState d sender => exact fun v hv => absurd hv List.not_mem_nil

/-- A registration creates its new slot. -/
theorem RegisterRun.created_mem (r : RegisterRun M K truth solution) :
    r.createdNew ∈ zeroCoins r.conditions := by
  simp [RegisterRun.conditions, registerConditions, zeroCoins, createSlotCoin, spendCoin,
    Condition.zeroCoin?, Clvm.nil]

theorem Explains.hasHashKey_inserted (h : Explains M K truth solution action cs f)
    (htail : ∀ t, Call.registeredTail ⟨action, solution⟩ = some t → IsHash t) :
    ∀ v ∈ f.inserted, HasHashKey v := by
  intro v hv
  have hmem : keyOf v ∈ f.inserted.map keyOf := List.mem_map_of_mem hv
  rw [h.inserted_key] at hmem
  obtain ⟨t, ht, hkey⟩ := List.mem_map.1 hmem
  exact ⟨t, hkey.symm, htail t (Option.mem_toList.1 ht)⟩

end

/-! ## One block -/

section

variable {M : Machine} {K : Constants} {items items' : Multiset Item} {steps : List (Step Action)}
variable {fs : List Footprint}

/-- **One block.**  First the keys of all slots it touches are hashes, as no move
changes a key; so its new slots are well-formed, and so are all others. -/
theorem wellFormed_settles (hfs : Footprints M K steps fs)
    (h : Settles items (Effect.total (fs.map Footprint.effect)) items')
    (htails : ∀ t ∈ registeredTails steps, IsHash t) (hlive : ∀ v ∈ slotsOf items, WellFormed v) :
    (∀ f ∈ fs, ∀ v ∈ f.moves.map Prod.snd ++ f.inserted, WellFormed v) ∧
      ∀ v ∈ slotsOf items', WellFormed v := by
  have hrank : ∀ g ∈ fs.map Footprint.rewrite, ∀ m ∈ g.moves, counterOf m.2 = counterOf m.1 + 1 :=
    fun g hg => (hfs.bumps g hg).rank_eq
  have htail : ∀ f ∈ fs, ∃ s ∈ steps,
      Explains M K s.truth s.call.solution s.call.action s.conditions f ∧
      ∀ t, Call.registeredTail s.call = some t → IsHash t := by
    intro f hf
    obtain ⟨s, hs, hexplains⟩ := hfs.exists_mem hf
    exact ⟨s, hs, hexplains, fun t ht => htails t (List.mem_filterMap.2 ⟨s, hs, ht⟩)⟩
  have hkeys := forall_moves hrank (settles_rewrites h)
    (fun v hv => (hlive v hv).hasHashKey) (fun g hg v hv => by
      obtain ⟨f, hf, rfl⟩ := List.mem_map.1 hg
      obtain ⟨s, -, hexplains, ht⟩ := htail f hf
      exact hexplains.hasHashKey_inserted ht v hv)
    (fun g hg m hm hkey => by
      obtain ⟨k, hk, hhash⟩ := hkey
      exact ⟨k, ((hfs.bumps g hg).key_eq m hm).trans hk, hhash⟩)
  have hinserted : ∀ g ∈ fs.map Footprint.rewrite, ∀ v ∈ g.inserted, WellFormed v := by
    intro g hg v hv
    obtain ⟨f, hf, rfl⟩ := List.mem_map.1 hg
    obtain ⟨s, -, hexplains, ht⟩ := htail f hf
    exact hexplains.wellFormed_inserted ht (fun m hm => (hkeys _ hg m hm).1) v hv
  have hmoves : ∀ g ∈ fs.map Footprint.rewrite, ∀ m ∈ g.moves,
      WellFormed m.1 → WellFormed m.2 := by
    intro g hg m hm
    obtain ⟨f, hf, rfl⟩ := List.mem_map.1 hg
    obtain ⟨s, -, hexplains, ht⟩ := htail f hf
    exact hexplains.wellFormed_moves ht m hm
  refine ⟨fun f hf v hv => ?_, forall_live hrank (settles_rewrites h) hlive hinserted hmoves⟩
  have hg : f.rewrite ∈ fs.map Footprint.rewrite := List.mem_map_of_mem hf
  rcases List.mem_append.1 hv with hv | hv
  · obtain ⟨m, hm, rfl⟩ := List.mem_map.1 hv
    exact (forall_moves hrank (settles_rewrites h) hlive hinserted hmoves _ hg m hm).2
  · exact hinserted _ hg v hv

/-- A slot that a step creates is one of its footprint. -/
theorem Footprint.Matches.mem_of_created (hH : M.hash.CollisionFree)
    (hK : K.slot1stCurryHash ≠ K.uniquenessPrelauncher1stCurryHash) {f : Footprint}
    {cs : List Condition} (h : f.Matches M.hash K cs) {v : Clvm} {ph : Bytes}
    (hv : M.hash.slotCoin K.slot1stCurryHash v = some ph) (hph : ph ∈ zeroCoins cs) :
    v ∈ f.moves.map Prod.snd ++ f.inserted := by
  obtain ⟨i, hi, hcoin⟩ := h.created.exists_of_mem hph
  have heq : Item.slot v = i := Item.coin_injOnDomain hH hK (a := .slot v) hv hcoin
  rw [← heq] at hi
  simpa [Footprint.effect, List.mem_append] using hi

end

/-! ## Histories -/

section

variable {M : Machine} {K : Constants} {S : Sentinels} {r₀ r : Registry}
variable {events : List (Event Action)}

/-- Sentinels whose keys are hashes. -/
structure Sentinels.AreHashes (S : Sentinels) : Prop where
  low : S.low.length = 32
  high : S.high.length = 32
  lowLeft : S.lowLeft.length = 32
  highRight : S.highRight.length = 32

/-- The step creates the slot of a value. -/
def Creates (M : Machine) (K : Constants) (s : Step Action) (v : Clvm) : Prop :=
  ∃ ph, M.hash.slotCoin K.slot1stCurryHash v = some ph ∧ ph ∈ zeroCoins s.conditions

/-- What a history of registrations of hashes creates, and leaves behind. -/
theorem wellFormed_of_registered (hH : M.hash.CollisionFree)
    (hK : K.slot1stCurryHash ≠ K.uniquenessPrelauncher1stCurryHash) (h0 : Starts M.hash K S r₀)
    (hS : S.AreHashes) (hrun : Run (Action.run M K) r₀ events r)
    (htails : ∀ t ∈ allRegistered events, IsHash t) :
    (∃ items, Behind M.hash K items r ∧ ∀ v ∈ slotsOf items, WellFormed v) ∧
      ∀ e ∈ events, ∀ s ∈ e.steps, ∀ v, Creates M K s v → WellFormed v := by
  induction hrun with
  | start =>
      refine ⟨⟨_, h0, fun v hv => ?_⟩, fun e he => absurd he List.not_mem_nil⟩
      have hslots : slotsOf {.slot S.lowSlot, .slot S.highSlot} = {S.lowSlot, S.highSlot} := rfl
      rw [hslots, Multiset.insert_eq_cons, Multiset.mem_cons, Multiset.mem_singleton] at hv
      rcases hv with rfl | rfl
      · exact wellFormed_slotValue.2 ⟨⟨_, rfl, hS.low⟩, ⟨_, rfl, hS.lowLeft⟩, _, rfl, hS.high⟩
      · exact wellFormed_slotValue.2 ⟨⟨_, rfl, hS.high⟩, ⟨_, rfl, hS.low⟩, _, rfl, hS.highRight⟩
  | @next past r r' b steps _ hstep ih =>
      rw [allRegistered, List.flatMap_append, List.flatMap_singleton] at htails
      obtain ⟨⟨items, hitems, hlive⟩, hpast⟩ :=
        ih fun t ht => htails t (List.mem_append_left _ ht)
      obtain ⟨fs, hfs⟩ := exists_footprints hstep
      obtain ⟨items', hitems', hsettles⟩ := exists_settlement hH hK hstep hfs hitems
      obtain ⟨hcreated, hlive'⟩ := wellFormed_settles hfs hsettles
        (fun t ht => htails t (List.mem_append_right _ ht)) hlive
      refine ⟨⟨items', hitems', hlive'⟩, fun e he s hs v hv => ?_⟩
      rcases List.mem_append.1 he with he | he
      · exact hpast e he s hs v hv
      · rw [List.mem_singleton.1 he] at hs
        obtain ⟨f, hf, hexplains⟩ := hfs.exists_mem_of_step hs
        obtain ⟨ph, hcoin, hph⟩ := hv
        exact hcreated f hf v (hexplains.matches.mem_of_created hH hK hcoin hph)

/-- **Which histories can be followed.**  Every slot that a history creates is
well-formed exactly if every TAIL registered in it is a hash. -/
theorem slots_wellFormed_iff (hH : M.hash.CollisionFree)
    (hK : K.slot1stCurryHash ≠ K.uniquenessPrelauncher1stCurryHash) (h0 : Starts M.hash K S r₀)
    (hS : S.AreHashes) (hrun : Run (Action.run M K) r₀ events r) :
    (∀ e ∈ events, ∀ s ∈ e.steps, ∀ v, Creates M K s v → WellFormed v) ↔
      ∀ t ∈ allRegistered events, IsHash t := by
  constructor
  · intro h t ht
    obtain ⟨e, he, ht⟩ := List.mem_flatMap.1 ht
    obtain ⟨s, hs, hregistered⟩ := List.mem_filterMap.1 ht
    obtain ⟨past, future, rfl⟩ := List.append_of_mem he
    obtain ⟨r₁, r₂, -, hstep⟩ := hrun.exists_block rfl
    have ha : s.call.action = .register := by
      by_contra hne
      rw [Call.registeredTail, if_neg hne] at hregistered
      cases hregistered
    have hruns := hstep.run_eq hs
    rw [ha] at hruns
    obtain ⟨x, hx⟩ := register_eq_some.1 hruns
    obtain ⟨-, hconditions⟩ := Prod.mk.inj hx
    have htail := x.registeredTail
    rw [← ha] at htail
    obtain rfl := Option.some.inj (htail.symm.trans hregistered)
    refine (wellFormed_slotValue.1 (h e he s hs x.s.newSlot ⟨x.createdNew, x.creates_new, ?_⟩)).1
    rw [hconditions]
    exact x.created_mem
  · intro htails
    exact (wellFormed_of_registered hH hK h0 hS hrun htails).2

end

/-- **A TAIL of one byte is registered.**  The slot that is created for it cannot
be read. -/
theorem slot_not_wellFormed : ∃ (M : Machine) (K : Constants) (S : Sentinels) (r₀ r : Registry)
    (b : Block Action) (s : Step Action) (v : Clvm), M.hash.CollisionFree ∧
    K.slot1stCurryHash ≠ K.uniquenessPrelauncher1stCurryHash ∧ Starts M.hash K S r₀ ∧
    S.AreHashes ∧ BlockStep (Action.run M K) r₀ b [s] r ∧ Creates M K s v ∧ ¬ WellFormed v := by
  obtain ⟨r, hstep⟩ := Example.exists_blockStep
  refine ⟨Example.machine, Example.constants, Example.sentinels, Example.launched, r,
    Example.block, Example.step, Example.solution.newSlot, Example.collisionFree, by decide,
    Example.starts, ⟨rfl, rfl, rfl, rfl⟩, hstep,
    ⟨_, Example.registration.creates_new, Example.registration.created_mem⟩, ?_⟩
  intro h
  obtain ⟨b, hb, hlength⟩ := (wellFormed_slotValue.1 h).1
  obtain rfl := Clvm.atom.inj hb
  exact absurd hlength (by decide)

/-- The history with this registration, which violates the condition. -/
theorem slots_wellFormed_iff_registration :
    (∀ s ∈ [Example.step], ∀ v, Creates Example.machine Example.constants s v → WellFormed v) ↔
      ∀ t ∈ registeredTails [Example.step], IsHash t := by
  obtain ⟨r, hstep⟩ := Example.exists_blockStep
  have h := slots_wellFormed_iff Example.collisionFree (by decide) Example.starts
    ⟨rfl, rfl, rfl, rfl⟩ (.next .start hstep)
  simpa [allRegistered] using h

end SlotMachine.Catalog
