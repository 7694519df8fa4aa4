import SlotMachine.Catalog.RefundSafety
import Mathlib.Logic.Basic

/-!
# CATalog: what becomes of a precommit coin

A precommit coin of the CAT maker and the price of the registry is good for a
registration as long as its TAIL is not registered, and for an honest refund from
then on.

* `Fits` — the precommit coins this is about.
* `Registrable`, `Refundable` — there is a solution that consumes the coin.
* `exists_registration`, `exists_refund` — **the solutions**: a free TAIL has a gap
  in the list, a registered one has its slot.
* `catalog_disposition` — **exactly one of the two actions can consume the coin.**
* `malformed_owner_stranded` — a coin that neither of them can consume: the owner
  it commits to is not an atom.
-/

namespace SlotMachine.Catalog

open Settlement SortedList

/-! ## Coins and their uses -/

/-- A coin that the CAT maker of the state made from a value that commits to this
CAT maker, with the price as its amount and a TAIL between the sentinels. -/
structure Fits (M : Machine) (K : Constants) (state : CatalogState) (S : Sentinels) (o : Opening)
    (coin : PrecommitCoin) (tail : Bytes) : Prop where
  made : ∃ maker d, M.hash.treeHash maker = some d ∧ state.catMakerPuzzleHash = .atom d ∧
    o.catMakerHash = .atom d ∧ Makes M K maker o.catMakerSolution o coin.puzzleHash
  price : state.registrationPrice = .atom coin.amount
  tail_eq : o.data.tailHash = .atom tail
  above_low : S.low < tail
  below_high : tail < S.high

/-- The registry coin with id `myId` can register something with the coin. -/
def Registrable (M : Machine) (K : Constants) (r : Registry) (info : BlockInfo) (myId : Clvm)
    (coin : PrecommitCoin) : Prop :=
  ∃ (s : RegisterSolution) (cs : List Condition), s.myId = myId ∧
    Accepts (Action.run M K) r info ⟨.register, s.toClvm⟩ cs ∧ coin.send payOut ∈ cs

/-- The registry can refund the coin, with the CAT maker of the state revealed. -/
def Refundable (M : Machine) (K : Constants) (state : CatalogState) (r : Registry)
    (info : BlockInfo) (coin : PrecommitCoin) : Prop :=
  ∃ (s : RefundSolution) (d : Bytes) (cs : List Condition),
    M.hash.treeHash s.catMaker.puzzle = some d ∧ state.catMakerPuzzleHash = .atom d ∧
    Accepts (Action.run M K) r info ⟨.refund, s.toClvm⟩ cs ∧ coin.send refunded ∈ cs

/-- The slot of the value is among the coins `live`. -/
def IsLive (H : HashOracle) (K : Constants) (live : Multiset Bytes) (v : Clvm) : Prop :=
  ∃ ph, H.slotCoin K.slot1stCurryHash v = some ph ∧ ph ∈ live

theorem registered_iff {H : HashOracle} {K : Constants} {live : Multiset Bytes} {tail : Clvm} :
    Registered H K live tail ↔ ∃ v, IsLive H K live v ∧ keyOf v = some tail := by
  constructor
  · rintro ⟨v, ph, hv, hph, hkey⟩
    exact ⟨v, ⟨ph, hv, hph⟩, hkey⟩
  · rintro ⟨v, ⟨ph, hv, hph⟩, hkey⟩
    exact ⟨v, ph, hv, hph, hkey⟩

/-- The table holds the messages that an honest registration or refund of the
TAIL hashes, apart from those of the coin itself. -/
structure Hashes (H : HashOracle) (K : Constants) (live : Multiset Bytes) (myId : Clvm)
    (tail owner : Bytes) : Prop where
  announced : ∃ d, H.treeHash (.pair (.atom tail) (.atom owner)) = some d
  launches : ∃ nftId, Nonempty (Launches H K.nftPack K.uniquenessPrelauncher1stCurryHash myId
    (.atom tail) (.atom owner) nftId)
  kept : ∀ c l r, IsLive H K live (slotValue (.atom c) (.atom tail) l r) →
    ∃ ph, H.slotCoin K.slot1stCurryHash
      (slotValue (.ofInt (intFromBytes c + 1)) (.atom tail) l r) = some ph
  inserted : ∀ a b l r ca cb, a < tail → tail < b →
    IsLive H K live (slotValue (.atom ca) (.atom a) l (.atom b)) →
    IsLive H K live (slotValue (.atom cb) (.atom b) (.atom a) r) →
    (∃ ph, H.slotCoin K.slot1stCurryHash (slotValue .nil (.atom tail) (.atom a) (.atom b))
      = some ph) ∧
    (∃ ph, H.slotCoin K.slot1stCurryHash
      (slotValue (.ofInt (intFromBytes ca + 1)) (.atom a) l (.atom tail)) = some ph) ∧
    ∃ ph, H.slotCoin K.slot1stCurryHash
      (slotValue (.ofInt (intFromBytes cb + 1)) (.atom b) (.atom tail) r) = some ph

/-! ## Live slots -/

section

variable {M : Machine} {K : Constants} {S : Sentinels} {r : Registry} {items : Multiset Item}
variable {l : List (Node Bytes)}

/-- The live slots are those behind the coins of the registry. -/
theorem Behind.isLive_iff (h : Behind M.hash K items r) (hH : M.hash.CollisionFree)
    (hK : K.slot1stCurryHash ≠ K.uniquenessPrelauncher1stCurryHash) {v : Clvm} :
    IsLive M.hash K r.live v ↔ v ∈ slotsOf items := by
  rw [mem_slotsOf]
  constructor
  · rintro ⟨ph, hv, hph⟩
    obtain ⟨i, hi, hcoin⟩ := h.exists_of_mem hph
    have heq : Item.slot v = i := Item.coin_injOnDomain hH hK (a := .slot v) hv hcoin
    rwa [heq]
  · intro hv
    obtain ⟨ph, hph, hcoin⟩ := h.exists_image hv
    exact ⟨ph, hcoin, hph⟩

/-- Two different live slots are live together. -/
theorem pair_le_of_isLive (hH : M.hash.CollisionFree) {v w : Clvm} {ph ph' : Bytes}
    (hv : M.hash.slotCoin K.slot1stCurryHash v = some ph)
    (hw : M.hash.slotCoin K.slot1stCurryHash w = some ph') (hph : ph ∈ r.live)
    (hph' : ph' ∈ r.live) (hne : v ≠ w) : ph ::ₘ ph' ::ₘ 0 ≤ r.live := by
  have hnodup : (ph ::ₘ ph' ::ₘ 0).Nodup := by
    rw [Multiset.nodup_cons]
    refine ⟨fun h => ?_, Multiset.nodup_singleton ph'⟩
    obtain rfl := Multiset.mem_singleton.1 h
    exact hne (HashOracle.slotCoin_inj hH hv hw).2
  rw [Multiset.le_iff_subset hnodup]
  intro x hx
  rcases Multiset.mem_cons.1 hx with rfl | hx
  · exact hph
  · rwa [Multiset.mem_singleton.1 hx]

/-! ## The two solutions -/

variable {state : CatalogState} {o : Opening} {coin : PrecommitCoin} {tail owner : Bytes}
variable {myId : Clvm} {info : BlockInfo}

/-- **A registration** that goes between two live slots which point at each other. -/
theorem exists_registration (hH : M.hash.CollisionFree) (hstate : r.state = state.toClvm)
    (hfits : Fits M K state S o coin tail) (howner : o.data.initialNftOwnerPh = .atom owner)
    (hhashes : Hashes M.hash K r.live myId tail owner) {a b ca cb : Bytes} {ll rr : Clvm}
    (ha : a < tail) (hb : tail < b)
    (hleft : IsLive M.hash K r.live (slotValue (.atom ca) (.atom a) ll (.atom b)))
    (hright : IsLive M.hash K r.live (slotValue (.atom cb) (.atom b) (.atom a) rr)) :
    Registrable M K r info myId coin := by
  obtain ⟨maker, d, hd, hmaker, hcommitted, hmakes⟩ := hfits.made
  obtain ⟨announced, hannounced⟩ := hhashes.announced
  obtain ⟨nftId, ⟨x⟩⟩ := hhashes.launches
  obtain ⟨⟨createdNew, hnew⟩, ⟨createdLeft, hleft'⟩, ⟨createdRight, hright'⟩⟩ :=
    hhashes.inserted a b ll rr ca cb ha hb hleft hright
  obtain ⟨spentLeft, hspentLeft, hliveLeft⟩ := hleft
  obtain ⟨spentRight, hspentRight, hliveRight⟩ := hright
  let s : RegisterSolution :=
    { myId := myId, left := ⟨.atom ca, .atom a, ll⟩, right := ⟨.atom cb, .atom b, rr⟩,
      catMaker := ⟨maker, o.catMakerSolution⟩, other := o.data }
  have hopening : s.opening state = o := by
    obtain ⟨data, m, sol⟩ := o
    exact congrArg (fun m => Opening.mk data m sol) (hmaker.trans hcommitted.symm)
  have hnames : (Clvm.pair o.data.tailHash o.data.initialNftOwnerPh)
      = .pair (.atom tail) (.atom owner) := by rw [hfits.tail_eq, howner]
  let run : RegisterRun M K (.pair .nil r.state) s.toClvm :=
    { t := ⟨.nil, state⟩, s := s, truth_eq := by rw [hstate]; rfl, solution_eq := rfl,
      tail := tail, left := a, right := b, tail_eq := hfits.tail_eq, left_eq := rfl,
      right_eq := rfl, above_left := ha, below_right := hb, catMakerHash := d,
      hashes_catMaker := hd, catMaker_eq := hmaker, prelauncher := x.prelauncherPuzzleHash,
      hashes_prelauncher := by rw [hfits.tail_eq]; exact x.hashes_prelauncher,
      prelauncherId := x.prelauncherId, prelauncherId_eq := x.prelauncher,
      launcherId := x.launcherId, launcherId_eq := x.launcher,
      precommit := .atom coin.puzzleHash,
      makes := by rw [hopening]; exact makes_iff.1 hmakes,
      nftId := nftId, nft_eq := by rw [howner]; exact x.nft,
      announced := announced, hashes_announced := by rw [hnames]; exact hannounced,
      leftCounter := ca, leftCounter_eq := rfl, rightCounter := cb, rightCounter_eq := rfl,
      spentLeft := spentLeft, spends_left := hspentLeft, spentRight := spentRight,
      spends_right := hspentRight, createdNew := createdNew,
      creates_new := by
        rw [RegisterSolution.newSlot, hfits.tail_eq]
        exact hnew,
      createdLeft := createdLeft, creates_left := hleft', createdRight := createdRight,
      creates_right := hright' }
  refine ⟨s, run.conditions, rfl, ⟨⟨_, register_eq_some.2 ⟨run, rfl⟩, r.state, rfl⟩, ?_, ?_⟩,
    run.send_mem.2 ⟨rfl, rfl, hfits.price⟩⟩
  · refine pair_le_of_isLive hH hspentLeft hspentRight hliveLeft hliveRight fun h => ?_
    simp only [slotValue, Clvm.pair.injEq, Clvm.atom.injEq] at h
    exact absurd (ha.trans hb) (h.2.1 ▸ lt_irrefl a)
  · simp [RegisterRun.conditions, registerConditions, Condition.Holds, spendCoin, createSlotCoin]

/-- **A refund** that bumps the slot of the TAIL. -/
theorem exists_refund (hstate : r.state = state.toClvm) (hfits : Fits M K state S o coin tail)
    (howner : o.data.initialNftOwnerPh = .atom owner)
    (hhashes : Hashes M.hash K r.live myId tail owner) {c : Bytes} {left right : Clvm}
    (hslot : IsLive M.hash K r.live (slotValue (.atom c) (.atom tail) left right)) :
    Refundable M K state r info coin := by
  obtain ⟨maker, d, hd, hmaker, hcommitted, hmakes⟩ := hfits.made
  obtain ⟨announced, hannounced⟩ := hhashes.announced
  obtain ⟨created, hcreated⟩ := hhashes.kept c left right hslot
  obtain ⟨spent, hspent, hlive⟩ := hslot
  let s : RefundSolution :=
    { catMaker := ⟨maker, o.catMakerSolution⟩, other := o.data, precommitAmount := .atom coin.amount,
      neighborsAndCounter := .pair (.pair left right) (.atom c) }
  have hopening : s.opening d = o := by
    obtain ⟨data, m, sol⟩ := o
    exact congrArg (fun m => Opening.mk data m sol) hcommitted.symm
  have hnames : (Clvm.pair o.data.tailHash o.data.initialNftOwnerPh)
      = .pair (.atom tail) (.atom owner) := by rw [hfits.tail_eq, howner]
  have hvalue (counter : Clvm) :
      s.slot (.pair left right) counter = slotValue counter (.atom tail) left right := by
    rw [RefundSolution.slot, slotValue, ← hfits.tail_eq]
  have hvalid : looksValid state s.precommitAmount d = some true :=
    looksValid_eq_some.2 ⟨_, _, _, hfits.price, rfl, hmaker, by simp⟩
  have hkeep : keepSlot M.hash K s = some [spendCoin spent, createSlotCoin K created] :=
    keepSlot_eq_some.2 ⟨_, c, spent, created, rfl, by rw [hvalue]; exact hspent,
      by rw [hvalue]; exact hcreated, rfl⟩
  let run : RefundRun M K (.pair .nil r.state) s.toClvm :=
    { t := ⟨.nil, state⟩, s := s, truth_eq := by rw [hstate]; rfl, solution_eq := rfl,
      catMakerHash := d, hashes_catMaker := hd, precommit := .atom coin.puzzleHash,
      makes := by rw [hopening]; exact makes_iff.1 hmakes, announced := announced,
      hashes_announced := by rw [hnames]; exact hannounced, valid := true, valid_eq := hvalid,
      slot := _, slot_eq := hkeep }
  refine ⟨s, d, run.conditions, hd, hmaker,
    ⟨⟨_, refund_eq_some.2 ⟨run, rfl⟩, r.state, rfl⟩, ?_, ?_⟩, run.send_mem.2 ⟨rfl, rfl, rfl⟩⟩
  · exact Multiset.singleton_le.2 hlive
  · simp [RefundRun.conditions, refundConditions, run, Condition.Holds, spendCoin, createSlotCoin]

/-! ## Exactly one of the two -/

/-- A registration whose slots are live is of a TAIL that is not registered. -/
theorem RegisterRun.not_registered (hH : M.hash.CollisionFree)
    (hK : K.slot1stCurryHash ≠ K.uniquenessPrelauncher1stCurryHash)
    (hitems : Behind M.hash K items r) (hl : Listed S items l) {truth solution : Clvm}
    (x : RegisterRun M K truth solution) (hlive : slotSpends x.conditions ≤ r.live) :
    ¬ Registered M.hash K r.live x.s.other.tailHash := by
  have hspent : ∀ ph, spendCoin ph ∈ x.conditions → ph ∈ r.live := fun ph hph =>
    Multiset.mem_of_le hlive (mem_slotSpends hph)
  -- both neighbours are in the list, and they point at each other
  have hleft := (hitems.isLive_iff hH hK).1 ⟨_, x.spends_left, hspent _ (by
    simp [RegisterRun.conditions, registerConditions])⟩
  have hright := (hitems.isLive_iff hH hK).1 ⟨_, x.spends_right, hspent _ (by
    simp [RegisterRun.conditions, registerConditions])⟩
  obtain ⟨a, ha, hanode⟩ := hl.exists_node hleft
  obtain ⟨b, hb, hbnode⟩ := hl.exists_node hright
  rw [RegisterSolution.leftSlot, nodeOf_slotValue, x.left_eq] at hanode
  rw [RegisterSolution.rightSlot, nodeOf_slotValue, x.right_eq] at hbnode
  obtain ⟨hakey, -, haright⟩ := Node.mk.inj (Option.some.inj hanode)
  obtain ⟨hbkey, -, -⟩ := Node.mk.inj (Option.some.inj hbnode)
  have hakey' := Clvm.atom.inj hakey
  have haright' := Clvm.atom.inj haright
  have hbkey' := Clvm.atom.inj hbkey
  intro hregistered
  obtain ⟨v, hv, hkey⟩ := registered_iff.1 hregistered
  obtain ⟨n, hn, hnode⟩ := hl.exists_node ((hitems.isLive_iff hH hK).1 hv)
  rw [keyOf_of_nodeOf hnode, x.tail_eq] at hkey
  exact hl.linked.not_mem_of_gap ha hb (haright'.symm.trans hbkey') (hakey' ▸ x.above_left)
    (hbkey' ▸ x.below_right) n hn (Clvm.atom.inj (Option.some.inj hkey))

/-- The coin of a registration has its TAIL. -/
theorem Registrable.not_registered (hH : M.hash.CollisionFree)
    (hK : K.slot1stCurryHash ≠ K.uniquenessPrelauncher1stCurryHash)
    (hitems : Behind M.hash K items r) (hl : Listed S items l) (hstate : r.state = state.toClvm)
    (hmaker : state.BindsInner M) (hcoin : BuiltFor M K state o coin)
    (h : Registrable M K r info myId coin) :
    ¬ Registered M.hash K r.live o.data.tailHash := by
  obtain ⟨s, cs, -, haccepts, hpay⟩ := h
  obtain ⟨truth', hruns, -⟩ := haccepts.runs
  obtain ⟨x, hx⟩ := register_eq_some.1 hruns
  obtain ⟨-, rfl⟩ := Prod.mk.inj hx
  have htruth : (CatalogStateTruth.mk .nil state).toClvm = x.t.toClvm :=
    (congrArg (Clvm.pair .nil) hstate.symm).trans x.truth_eq
  have ht := CatalogStateTruth.toClvm_injective htruth
  have hxstate : x.t.state = state := by rw [← ht]
  have hbuilt := x.builtFor (x.send_mem.1 hpay).2.1
  have hopening := hcoin.unique hH hmaker (congrArg _ hxstate) hbuilt
  have htail : o.data.tailHash = x.s.other.tailHash := congrArg (fun o => o.data.tailHash) hopening
  rw [htail]
  exact x.not_registered hH hK hitems hl haccepts.live

/-- The TAIL of an honest refund of a fitting coin is registered. -/
theorem Refundable.registered (hH : M.hash.CollisionFree) (hstate : r.state = state.toClvm)
    (hmaker : state.BindsInner M) (hfits : Fits M K state S o coin tail)
    (hcoin : BuiltFor M K state o coin) (h : Refundable M K state r info coin) :
    Registered M.hash K r.live o.data.tailHash := by
  obtain ⟨s, d, cs, hd, hown, haccepts, hpay⟩ := h
  obtain ⟨truth', hruns, -⟩ := haccepts.runs
  obtain ⟨x, hx⟩ := refund_eq_some.1 hruns
  obtain ⟨-, rfl⟩ := Prod.mk.inj hx
  have htruth : (CatalogStateTruth.mk .nil state).toClvm = x.t.toClvm :=
    (congrArg (Clvm.pair .nil) hstate.symm).trans x.truth_eq
  have ht := CatalogStateTruth.toClvm_injective htruth
  have hxstate : x.t.state = state := by rw [← ht]
  have hs : s = x.s := RefundSolution.toClvm_injective x.solution_eq
  rw [hs] at hd
  obtain rfl := Option.some.inj (hd.symm.trans x.hashes_catMaker)
  have hinvalid := x.invalid hH (hxstate ▸ hmaker) (hxstate ▸ hcoin) hpay (hxstate ▸ hown)
    fun ph hph => Multiset.mem_of_le haccepts.live hph
  rw [hxstate] at hinvalid
  obtain ⟨maker, d', -, hstated, hcommitted, -⟩ := hfits.made
  cases hinvalid with
  | catMaker h => exact absurd (hcommitted.trans hstated.symm) h
  | amount h => exact absurd hfits.price h
  | registered h => exact h

theorem Fits.builtFor (h : Fits M K state S o coin tail) : BuiltFor M K state o coin := by
  obtain ⟨maker, d, hd, hmaker, -, hmakes⟩ := h.made
  exact ⟨maker, d, _, hd, hmaker, hmakes⟩

/-- **Disposition.**  At every state that a history reaches and for every coin
that fits it and commits to an atom as the owner: a registration can consume the
coin exactly if its TAIL is not registered, an honest refund can exactly if it
is, so that exactly one of the two is possible. -/
theorem catalog_disposition (hH : M.hash.CollisionFree)
    (hK : K.slot1stCurryHash ≠ K.uniquenessPrelauncher1stCurryHash) {r₀ : Registry}
    {events : List (Event Action)} (h0 : Starts M.hash K S r₀)
    (hrun : Run (Action.run M K) r₀ events r) (hstate : r.state = state.toClvm)
    (hmaker : state.BindsInner M) (hfits : Fits M K state S o coin tail)
    (howner : o.data.initialNftOwnerPh = .atom owner)
    (hhashes : Hashes M.hash K r.live myId tail owner) :
    (Registrable M K r info myId coin ↔ ¬ Registered M.hash K r.live o.data.tailHash) ∧
    (Refundable M K state r info coin ↔ Registered M.hash K r.live o.data.tailHash) ∧
    Xor (Registrable M K r info myId coin) (Refundable M K state r info coin) := by
  obtain ⟨items, hitems, hinv⟩ := exists_invariant hH hK h0 hrun
  obtain ⟨l, hl⟩ := hinv.exists_listed
  have hregister : Registrable M K r info myId coin ↔
      ¬ Registered M.hash K r.live o.data.tailHash := by
    refine ⟨fun h => h.not_registered hH hK hitems hl hstate hmaker hfits.builtFor, fun h => ?_⟩
    -- the TAIL is not in the list, so it has two neighbours
    have hfree : ∀ n ∈ l, n.key ≠ tail := by
      rintro n hn rfl
      obtain ⟨c, hc⟩ := hl.exists_slot hn
      refine h (registered_iff.2 ⟨_, (hitems.isLive_iff hH hK).2 hc, ?_⟩)
      rw [hfits.tail_eq]
      rfl
    obtain ⟨a, ha, b, hb, hat, htb, hab, hba⟩ :=
      hl.linked.exists_gap hfits.above_low hfits.below_high hfree
    obtain ⟨ca, hca⟩ := hl.exists_slot ha
    obtain ⟨cb, hcb⟩ := hl.exists_slot hb
    rw [hab] at hca
    rw [hba] at hcb
    exact exists_registration hH hstate hfits howner hhashes hat htb
      ((hitems.isLive_iff hH hK).2 hca) ((hitems.isLive_iff hH hK).2 hcb)
  have hrefund : Refundable M K state r info coin ↔
      Registered M.hash K r.live o.data.tailHash := by
    refine ⟨fun h => h.registered hH hstate hmaker hfits hfits.builtFor, fun h => ?_⟩
    obtain ⟨v, hv, hkey⟩ := registered_iff.1 h
    have hmem := (hitems.isLive_iff hH hK).1 hv
    obtain ⟨n, hn, hnode⟩ := hl.exists_node hmem
    rw [keyOf_of_nodeOf hnode, hfits.tail_eq] at hkey
    obtain rfl := Clvm.atom.inj (Option.some.inj hkey)
    obtain ⟨c, hc⟩ := hl.exists_slot hn
    exact exists_refund hstate hfits howner hhashes ((hitems.isLive_iff hH hK).2 hc)
  refine ⟨hregister, hrefund, ?_⟩
  rw [hregister, hrefund, xor_comm]
  exact xor_not_right.2 Iff.rfl

end

namespace Example

/-- The live slots of the registry that has just been launched. -/
theorem isLive_launched {H : HashOracle} (hH : H.CollisionFree)
    (hlow : H.slotCoin constants.slot1stCurryHash sentinels.lowSlot
      = some (slotPuzzleHash sentinels.lowSlot))
    (hhigh : H.slotCoin constants.slot1stCurryHash sentinels.highSlot
      = some (slotPuzzleHash sentinels.highSlot)) {v : Clvm}
    (h : IsLive H constants launched.live v) : v = sentinels.lowSlot ∨ v = sentinels.highSlot := by
  obtain ⟨ph, hv, hph⟩ := h
  rw [launched, Multiset.insert_eq_cons, Multiset.mem_cons, Multiset.mem_singleton] at hph
  rcases hph with rfl | rfl
  · exact Or.inl (HashOracle.slotCoin_inj hH hv hlow).2
  · exact Or.inr (HashOracle.slotCoin_inj hH hv hhigh).2

theorem fits : Fits machine constants state sentinels (solution.opening state) coin tail where
  made := ⟨makerProgram, makerHash, treeHash_maker, rfl, rfl,
    makes_iff.2 registration.makes⟩
  price := rfl
  tail_eq := rfl
  above_low := by decide
  below_high := by decide

theorem hashes : Hashes machine.hash constants launched.live (.atom (filled 1)) tail (filled 70) := by
  have hlive {v : Clvm} := isLive_launched (v := v) collisionFree (slotCoin_eq (by simp [slots]))
    (slotCoin_eq (by simp [slots]))
  refine ⟨⟨_, treeHash_part (v := .pair (.atom tail) (.atom (filled 70))) (by simp)⟩,
    ⟨_, ⟨registration.launches⟩⟩, fun c l r h => ?_, fun a b l r ca cb ha hb h h' => ?_⟩
  · have hkey : tail = filled 0 ∨ tail = filled 255 := by
      refine (hlive h).imp (fun hv => ?_) fun hv => ?_ <;>
      exact Clvm.atom.inj (Clvm.pair.inj (Clvm.pair.inj hv).2).1
    exact absurd hkey (by decide)
  · -- the left slot is the low sentinel, the right one the high sentinel
    have hleft := (hlive h).resolve_right fun hv => by
      obtain rfl := Clvm.atom.inj (Clvm.pair.inj (Clvm.pair.inj hv).2).1
      exact absurd ha (by decide)
    have hright := (hlive h').resolve_left fun hv => by
      obtain rfl := Clvm.atom.inj (Clvm.pair.inj (Clvm.pair.inj hv).2).1
      exact absurd hb (by decide)
    simp only [Sentinels.lowSlot, Sentinels.highSlot, slotValue, Clvm.pair.injEq,
      Clvm.atom.injEq] at hleft hright
    obtain ⟨rfl, rfl, rfl, rfl⟩ := hleft
    obtain ⟨rfl, -, -, rfl⟩ := hright
    exact ⟨⟨_, registration.creates_new⟩, ⟨_, registration.creates_left⟩,
      ⟨_, registration.creates_right⟩⟩

/-! ## A coin that is stranded -/

/-- The owner that the coin commits to. -/
def pairOwner : Clvm := .pair .nil .nil

def strandedInner : Bytes := openingHash constants tail pairOwner (filled 71) makerHash .nil

def strandedOpening : Opening := openingOf tail pairOwner (filled 71) makerHash .nil

def strandedCoin : PrecommitCoin :=
  ⟨defaultCatHash (filled 60) (filled 61) strandedInner, intToBytes 7⟩

def strandedParts : List (List Skeleton) :=
  [[.ofClvm makerProgram], openingSkeletons constants tail pairOwner (filled 71) makerHash .nil,
    defaultCatMakerSkeletons (filled 60) (filled 61) strandedInner,
    [sentinels.lowSlot, sentinels.highSlot].flatMap (HashOracle.slotSkeletons (filled 52))]

def strandedTable : HashOracle := .ofSkeletons strandedParts.flatten

theorem strandedTable_collisionFree : strandedTable.CollisionFree :=
  HashOracle.ofSkeletons_collisionFree (by decide +kernel)

theorem strandedPart {l : List Skeleton} (h : l ∈ strandedParts) : l ⊆ strandedParts.flatten :=
  fun _ ht => List.mem_flatten.2 ⟨l, h, ht⟩

section

variable {H : HashOracle} (hle : strandedTable ≤ H)

include hle

theorem stranded_slotCoin {v : Clvm} (h : v ∈ [sentinels.lowSlot, sentinels.highSlot]) :
    H.slotCoin constants.slot1stCurryHash v = some (slotPuzzleHash v) := by
  unfold slotPuzzleHash
  refine HashOracle.slotCoin_mono hle (HashOracle.slotCoin_ofSkeletons fun t ht => ?_)
  exact strandedPart (l := [sentinels.lowSlot, sentinels.highSlot].flatMap
    (HashOracle.slotSkeletons (filled 52))) (by simp [strandedParts])
    (List.mem_flatMap.2 ⟨v, h, ht⟩)

theorem stranded_treeHash : H.treeHash makerProgram = some makerHash := by
  have hmem : Skeleton.ofClvm makerProgram ∈ strandedParts.flatten :=
    strandedPart (l := [.ofClvm makerProgram]) (by simp [strandedParts]) (List.mem_singleton_self _)
  exact HashOracle.treeHash_mono hle (HashOracle.treeHash_ofSkeletons hmem)

theorem stranded_fits : Fits (.clvm H (fun _ _ => none) 20) constants state sentinels
    strandedOpening strandedCoin tail where
  made := by
    refine ⟨makerProgram, makerHash, stranded_treeHash hle, rfl, rfl, strandedInner, ?_, ?_⟩
    · exact precommitInnerPuzzleHash_mono hle
        (precommitInnerPuzzleHash_ofSkeletons (strandedPart (by simp [strandedParts])))
    · have hmaker : defaultCatMaker H (filled 60) (filled 61) strandedInner
          = some (defaultCatHash (filled 60) (filled 61) strandedInner) :=
        defaultCatMaker_mono hle
          (defaultCatMaker_ofSkeletons (strandedPart (by simp [strandedParts])))
      have hrun : runCatMaker (.clvm H (fun _ _ => none) 20) makerProgram strandedInner .nil
          = some (defaultCatHash (filled 60) (filled 61) strandedInner) :=
        runCatMaker_default 6 hmaker
      dsimp only [strandedCoin, strandedOpening, openingOf]
      exact hrun
  price := rfl
  tail_eq := rfl
  above_low := by decide
  below_high := by decide

theorem stranded_bindsInner (hH : H.CollisionFree) :
    state.BindsInner (.clvm H (fun _ _ => none) 20) := by
  intro maker d hd hstate
  obtain rfl : makerHash = d := Clvm.atom.inj hstate
  have heq : maker = makerProgram := HashOracle.treeHash_inj hH hd (stranded_treeHash hle)
  rw [heq]
  exact (isCatMaker_defaultCatMakerProgram H _ 6 _ _).bindsInner hH

theorem stranded_not_registered (hH : H.CollisionFree) :
    ¬ Registered H constants launched.live strandedOpening.data.tailHash := by
  intro h
  obtain ⟨v, hv, hkey⟩ := registered_iff.1 h
  rcases isLive_launched hH (stranded_slotCoin hle (by simp)) (stranded_slotCoin hle (by simp)) hv
    with rfl | rfl <;>
  exact absurd hkey (by decide)

theorem stranded_starts : Starts H constants sentinels launched :=
  starts_of_coins (stranded_slotCoin hle (by simp)) (stranded_slotCoin hle (by simp))

/-- A registration of the coin would hash its owner as an atom. -/
theorem stranded_not_registrable (hH : H.CollisionFree) (info : BlockInfo) (myId : Clvm) :
    ¬ Registrable (.clvm H (fun _ _ => none) 20) constants launched info myId strandedCoin := by
  rintro ⟨s, cs, -, haccepts, hpay⟩
  obtain ⟨truth', hruns, -⟩ := haccepts.runs
  obtain ⟨x, hx⟩ := register_eq_some.1 hruns
  obtain ⟨-, rfl⟩ := Prod.mk.inj hx
  have htruth : (CatalogStateTruth.mk .nil state).toClvm = x.t.toClvm := x.truth_eq
  have hbuilt := x.builtFor (x.send_mem.1 hpay).2.1
  rw [← CatalogStateTruth.toClvm_injective htruth] at hbuilt
  have hopening := (stranded_fits hle).builtFor.unique hH (stranded_bindsInner hle hH) rfl hbuilt
  have howner : pairOwner = x.s.other.initialNftOwnerPh :=
    congrArg (fun o => o.data.initialNftOwnerPh) hopening
  obtain ⟨full, hfull, -⟩ := HashOracle.nftCoinId_eq_some.1 x.nft_eq
  obtain ⟨b, hb⟩ := HashOracle.atom_of_nftPuzzleHash hfull
  exact absurd (howner.trans hb) (by simp [pairOwner])

end

end Example

/-- **A coin for a malformed owner is stranded.**  Its CAT maker and its amount
are those of the registry, and its TAIL is not registered.  But as the owner that
it commits to is a pair, no registration can consume it, and no honest refund can
either, whatever else is hashed. -/
theorem malformed_owner_stranded : ∃ (H : HashOracle) (K : Constants) (S : Sentinels)
    (r : Registry) (state : CatalogState) (o : Opening) (coin : PrecommitCoin) (tail : Bytes),
    H.CollisionFree ∧ K.slot1stCurryHash ≠ K.uniquenessPrelauncher1stCurryHash ∧
    r.state = state.toClvm ∧ ∀ H' : HashOracle, H ≤ H' → H'.CollisionFree →
      Starts H' K S r ∧ state.BindsInner (.clvm H' (fun _ _ => none) 20) ∧
      Fits (.clvm H' (fun _ _ => none) 20) K state S o coin tail ∧
      ¬ Registered H' K r.live o.data.tailHash ∧
      ∀ (info : BlockInfo) (myId : Clvm),
        ¬ Registrable (.clvm H' (fun _ _ => none) 20) K r info myId coin ∧
        ¬ Refundable (.clvm H' (fun _ _ => none) 20) K state r info coin := by
  refine ⟨Example.strandedTable, Example.constants, Example.sentinels, Example.launched,
    Example.state, Example.strandedOpening, Example.strandedCoin, Example.tail,
    Example.strandedTable_collisionFree, by decide, rfl, fun H hle hH => ?_⟩
  have hbinds := Example.stranded_bindsInner hle hH
  have hfits := Example.stranded_fits hle
  have hfree := Example.stranded_not_registered hle hH
  refine ⟨Example.stranded_starts hle, hbinds, hfits, hfree, fun info myId => ⟨?_, fun h => ?_⟩⟩
  · exact Example.stranded_not_registrable hle hH info myId
  · exact hfree (h.registered hH rfl hbinds hfits hfits.builtFor)

/-- The coin of the example, at the registry that has just been launched. -/
theorem catalog_disposition_launched : Xor
    (Registrable Example.machine Example.constants Example.launched ⟨100, 500, []⟩
      (.atom (Example.filled 1)) Example.coin)
    (Refundable Example.machine Example.constants Example.state Example.launched ⟨100, 500, []⟩
      Example.coin) :=
  (catalog_disposition Example.collisionFree (by decide) Example.starts .start rfl
    Example.bindsInner Example.fits rfl Example.hashes).2.2

end SlotMachine.Catalog
