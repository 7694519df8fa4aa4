import SlotMachine.Chain.CatLayer
import SlotMachine.Chain.Maturity
import SlotMachine.Onchain.Payments

/-!
# Precommit coins on the chain

The money for a name waits in a CAT around the precommit puzzle, which a registry spends
with a message.

* `Precommits`, `Precommits.Lawful` — the precommit coins of a registry in one CAT.
* `Precommits.Commits` — the puzzle hashes of these coins, by what they commit to.
* `PaysOut` — the whole amount goes to the payout puzzle or to the refund puzzle, in the
  same CAT.
* `exists_redemption` — **a precommit coin is spent by one message of the registry**, which
  says where its money goes.
* `Redeemed`, `exists_redeemed` — **in each block the precommit coins that are spent are
  those that its steps pay**.
-/

namespace SlotMachine.Onchain

open Lineage Consensus Settlement

/-- The precommit coins of a registry, in the CAT of a TAIL. -/
structure Precommits where
  cat : CatLayer
  tailHashHash : Bytes
  precommit : Clvm
  relativeBlockHeight : ℤ
  payoutPuzzleHash : Bytes
  firstHash : Bytes

namespace Precommits

variable (Q : Precommits) (P : Programs)

/-- The precommit puzzle with its first arguments. -/
def first : Clvm :=
  Clvm.curry Q.precommit [.atom P.topLayer.modHash, .atom P.structHash,
    .ofInt Q.relativeBlockHeight, .atom Q.payoutPuzzleHash]

/-- What is curried into a precommit coin. -/
def curried (refundPuzzleHash : Clvm) : Rue.PrecommitCurried :=
  ⟨.atom P.topLayer.modHash, .atom P.structHash, .ofInt Q.relativeBlockHeight,
    .atom Q.payoutPuzzleHash, refundPuzzleHash⟩

/-- What is known of the programs. -/
structure Lawful (M : Machine) : Prop where
  cat : Q.cat.Computes M
  first_hash : M.hash.treeHash (Q.first P) = some Q.firstHash
  runs : ∀ {refundPuzzleHash value solution out : Clvm},
    M.eval (Clvm.curry (Q.first P) [refundPuzzleHash, value]) solution = some out →
    (Rue.precommit M.hash (Q.curried P refundPuzzleHash) solution).map encode = some out

variable (H : HashOracle)

/-- The puzzle hash of a coin that commits to a refund puzzle hash and a value, by their
hashes. -/
def Commits (refundHash valueHash ph : Bytes) : Prop :=
  ∃ inner, H.curryTreeHash (.atom Q.firstHash) [.atom refundHash, .atom valueHash] = some inner ∧
    Q.cat.puzzleHash H (.atom Q.tailHashHash) (.atom inner) = some ph

/-- The puzzle hash of a precommit coin. -/
def IsPrecommit (ph : Bytes) : Prop := ∃ refundHash valueHash, Q.Commits H refundHash valueHash ph

variable {Q H}

/-- A coin commits to one refund puzzle hash and to one value. -/
theorem Commits.unique (hH : H.CollisionFree) {r r' v v' ph : Bytes} (h : Q.Commits H r v ph)
    (h' : Q.Commits H r' v' ph) : r = r' ∧ v = v' := by
  obtain ⟨inner, hinner, hph⟩ := h
  obtain ⟨inner', hinner', hph'⟩ := h'
  obtain ⟨-, hsame⟩ := CatLayer.puzzleHash_inj hH hph hph'
  rw [← Clvm.atom.inj hsame] at hinner'
  obtain ⟨-, harguments⟩ := HashOracle.curryTreeHash_inj hH hinner hinner'
  simpa using harguments

end Precommits

/-! ## A spend of a precommit coin -/

/-- The spend creates one coin.  It has the whole amount, and is a CAT again: of the payout
puzzle, or of the refund puzzle that was committed to if the message is nil. -/
def PaysOut (Q : Precommits) (H : HashOracle) (s : Spend) (spendMode : Clvm)
    (refundHash : Bytes) : Prop :=
  ∃ destination ph,
    (if spendMode.truthy then destination = .atom Q.payoutPuzzleHash
      else H.treeHash destination = some refundHash) ∧
    Q.cat.puzzleHash H (.atom Q.tailHashHash) destination = some ph ∧
    s.created = {⟨s.id, ph, s.coin.amount⟩}

/-- What the precommit puzzle returns for the coin of a spend. -/
def precommitConditions (Q : Precommits) (s : Spend) (spendMode destination : Clvm)
    (sender : Bytes) : List Condition :=
  [.assertHeightRelative (.ofInt Q.relativeBlockHeight), .assertMyAmount (.ofInt s.coin.amount),
    .createCoin destination (.ofInt s.coin.amount) [destination],
    .receiveMessage puzzlePuzzleAmount spendMode [.atom sender]]

theorem precommit_eq_some {H : HashOracle} {c : Rue.PrecommitCurried} {solution : Clvm}
    {cs : List Condition} (h : Rue.precommit H c solution = some cs) :
    ∃ spendMode myAmount inner sender,
      H.curryTreeHash c.singletonModHash [c.singletonStructHash, inner] = some sender ∧
      cs = [.assertHeightRelative c.relativeBlockHeight, .assertMyAmount myAmount,
        .createCoin (c.destination spendMode) myAmount [c.destination spendMode],
        .receiveMessage puzzlePuzzleAmount spendMode [.atom sender]] := by
  obtain ⟨⟨spendMode, rest⟩, -, h1⟩ := bind_elim h
  obtain ⟨⟨myAmount, inner⟩, -, h2⟩ := bind_elim h1
  obtain ⟨sender, hsender, h3⟩ := bind_elim h2
  exact ⟨spendMode, myAmount, inner, sender, hsender, (Option.some.inj h3).symm⟩

theorem ofInt_ne_meltAmount (n : ℕ) : Clvm.ofInt n ≠ meltAmount := by
  intro h
  have heq := congrArg (fun v => v.bytes?.map intFromBytes) h
  simp only [meltAmount, Clvm.ofInt, Clvm.bytes?, Option.map_some, intFromBytes_intToBytes,
    Option.some.injEq] at heq
  omega

theorem not_melts_precommitConditions (Q : Precommits) (s : Spend) (spendMode destination : Clvm)
    (sender : Bytes) : ∀ c ∈ precommitConditions Q s spendMode destination sender, ¬ c.Melts := by
  simp [precommitConditions, Condition.Melts, ofInt_ne_meltAmount]

section

variable {Q : Precommits} {P : Programs} {M : Machine} {s : Spend} {height timestamp : ℕ}
  {refundHash valueHash : Bytes}

/-- A precommit coin is spent by running the precommit puzzle. -/
theorem exists_precommit_run (hH : M.hash.CollisionFree) (hQ : Q.Lawful P M)
    (hstruct : M.hash.treeHash (P.topLayer.struct P.launcherId) = some P.structHash)
    (hs : s.Readable M) (hasserts : ∀ c ∈ s.conditions, s.Asserts height timestamp c)
    (h : Q.Commits M.hash refundHash valueHash s.coin.puzzleHash) :
    ∃ tailHash innerPuzzle out spendMode destination sender,
      (if spendMode.truthy then destination = .atom Q.payoutPuzzleHash
        else M.hash.treeHash destination = some refundHash) ∧
      P.Owned M.hash sender ∧ s.conditions = conditionsOf out ∧
      ∃ r : Q.cat.CatLayerRun M tailHash innerPuzzle out, r.tailHashHash = Q.tailHashHash ∧
        conditionsOf r.innerOut = precommitConditions Q s spendMode destination sender := by
  obtain ⟨inner, hinner, hph⟩ := h
  obtain ⟨tailHash, innerPuzzle, out, hhash, hconditions, r, htail⟩ :=
    CatLayer.exists_run hH hQ.cat hs hph
  -- the inner puzzle is the precommit puzzle
  obtain ⟨program, arguments, _, rfl, hmod, hprogram, harguments⟩ :=
    HashOracle.exists_curry_of_treeHash hH hhash hinner
  rw [← Clvm.atom.inj hmod] at hprogram
  obtain rfl := HashOracle.treeHash_inj hH hprogram hQ.first_hash
  cases harguments with
  | @cons refund _ _ _ hfirst hrest =>
    obtain ⟨_, hsame, hrefund⟩ := hfirst
    rw [← Clvm.atom.inj hsame] at hrefund
    cases hrest with
    | cons hsecond hnil =>
      cases hnil
      obtain ⟨cs, hcs, hout⟩ := Option.map_eq_some_iff.1 (hQ.runs r.inner_eq)
      obtain ⟨spendMode, myAmount, spenderInner, sender, hsender, rfl⟩ := precommit_eq_some hcs
      have hread : conditionsOf r.innerOut = _ := hout ▸ conditionsOf_encode _
      have hamount : myAmount = .ofInt s.coin.amount := by
        refine hasserts (.assertMyAmount myAmount) ?_
        rw [hconditions]
        exact r.mem_conditions (by simp [hread]) rfl
      subst hamount
      refine ⟨tailHash, _, out, spendMode, _, sender, ?_, ⟨P.structHash, _, hstruct, hsender⟩,
        hconditions, r, htail, hread⟩
      unfold Rue.PrecommitCurried.destination
      by_cases htruthy : spendMode.truthy = true
      · rw [if_pos htruthy, if_pos htruthy]
        rfl
      · rw [if_neg htruthy, if_neg htruthy]
        exact hrefund

/-- The message that it receives. -/
theorem receivedPayments_precommit {tailHash innerPuzzle out spendMode destination : Clvm}
    {sender : Bytes} (r : Q.cat.CatLayerRun M tailHash innerPuzzle out)
    (hread : conditionsOf r.innerOut = precommitConditions Q s spendMode destination sender)
    (hconditions : s.conditions = conditionsOf out) (howned : P.Owned M.hash sender) :
    receivedPayments (P.Owned M.hash) s
      = {⟨spendMode, s.coin.puzzleHash, .ofInt s.coin.amount⟩} := by
  have hmessage : paymentMessage? (P.Owned M.hash)
      ⟨puzzlePuzzleAmount, spendMode, [.atom sender], commitment (puzzlePuzzleAmount % 8) s⟩
      = some ⟨spendMode, s.coin.puzzleHash, .ofInt s.coin.amount⟩ :=
    (paymentMessage?_eq_some (p := ⟨_, _, _⟩)).2 ⟨sender, howned, rfl⟩
  have hmelts := hread ▸ not_melts_precommitConditions Q s spendMode destination sender
  have hperm := r.filterMap_conditions hmelts
    (fun c => (received? s c).bind (paymentMessage? (P.Owned M.hash)))
    (fun _ _ _ => rfl) (fun _ => rfl)
  rw [hread, ← hconditions, ← List.filterMap_filterMap] at hperm
  refine (Multiset.coe_eq_coe.2 hperm).trans ?_
  simp [precommitConditions, received?, hmessage]

/-- The coin that it creates. -/
theorem created_precommit {tailHash innerPuzzle out spendMode destination : Clvm} {sender : Bytes}
    (hs : s.Readable M) (r : Q.cat.CatLayerRun M tailHash innerPuzzle out)
    (hread : conditionsOf r.innerOut = precommitConditions Q s spendMode destination sender)
    (hconditions : s.conditions = conditionsOf out) :
    ∃ ph, Q.cat.puzzleHash M.hash (.atom r.tailHashHash) destination = some ph ∧
      s.created = {⟨s.id, ph, s.coin.amount⟩} := by
  have hmelts := hread ▸ not_melts_precommitConditions Q s spendMode destination sender
  have hcreate : .createCoin destination (.ofInt s.coin.amount) [destination]
      ∈ conditionsOf r.innerOut := by
    rw [hread]
    simp [precommitConditions]
  obtain ⟨ph, hph⟩ := r.wraps _ _ _ hcreate (ofInt_ne_meltAmount s.coin.amount)
  refine ⟨ph, hph, ?_⟩
  have hmorph : Q.cat.morph M.hash (.atom r.tailHashHash)
      (.createCoin destination (.ofInt s.coin.amount) [destination])
      = some (.createCoin (.atom ph) (.ofInt s.coin.amount) [destination]) := by
    rw [CatLayer.morph, if_neg (ofInt_ne_meltAmount _), hph]
    rfl
  have hmem : .createCoin (.atom ph) (.ofInt s.coin.amount) [destination] ∈ s.conditions := by
    rw [hconditions]
    exact r.conditions_perm.mem_iff.2
      (List.mem_append_right _ (List.mem_filterMap.2 ⟨_, hcreate, hmorph⟩))
  -- the amount is read as it was written
  have hcreated : s.created? (.createCoin (.atom ph) (.ofInt s.coin.amount) [destination])
      = some ⟨s.id, ph, s.coin.amount⟩ := by
    obtain ⟨coin, hcoin⟩ := Option.isSome_iff_exists.1 (hs.creates _ _ _ hmem)
    obtain ⟨_, _, _, n, heq, hn, rfl⟩ := Spend.created?_eq_some.1 hcoin
    obtain ⟨hsame, rfl, rfl⟩ := Condition.createCoin.inj heq
    obtain rfl := Clvm.atom.inj hsame
    rw [hcoin]
    rw [readUint_ofInt, if_neg (by omega)] at hn
    split at hn
    · rw [← Reading.value.inj hn, Int.toNat_natCast]
    · cases hn
  have hone : ((Q.cat.morph M.hash (.atom r.tailHashHash)
      (.createCoin destination (.ofInt s.coin.amount) [destination])).bind s.created?)
      = some ⟨s.id, ph, s.coin.amount⟩ := by
    rw [hmorph]
    exact hcreated
  rw [r.created_eq hmelts hconditions, hread, precommitConditions, List.filterMap_cons_none rfl,
    List.filterMap_cons_none rfl, List.filterMap_cons_some
      (f := fun c => (Q.cat.morph M.hash (.atom r.tailHashHash) c).bind s.created?) hone,
    List.filterMap_cons_none rfl]
  rfl

/-- **A precommit coin is spent by one message of the registry.**  It is old enough, and
its whole amount goes where the message says. -/
theorem exists_redemption (hH : M.hash.CollisionFree) (hQ : Q.Lawful P M)
    (hstruct : M.hash.treeHash (P.topLayer.struct P.launcherId) = some P.structHash)
    (hs : s.Readable M) (hasserts : ∀ c ∈ s.conditions, s.Asserts height timestamp c)
    (h : Q.Commits M.hash refundHash valueHash s.coin.puzzleHash) :
    ∃ spendMode,
      receivedPayments (P.Owned M.hash) s
        = {⟨spendMode, s.coin.puzzleHash, .ofInt s.coin.amount⟩} ∧
      .assertHeightRelative (.ofInt Q.relativeBlockHeight) ∈ s.conditions ∧
      PaysOut Q M.hash s spendMode refundHash := by
  obtain ⟨tailHash, innerPuzzle, out, spendMode, destination, sender, hdestination, howned,
    hconditions, r, htail, hread⟩ := exists_precommit_run hH hQ hstruct hs hasserts h
  obtain ⟨ph, hph, hcreated⟩ := created_precommit hs r hread hconditions
  refine ⟨spendMode, receivedPayments_precommit r hread hconditions howned, ?_,
    destination, ph, hdestination, htail ▸ hph, hcreated⟩
  rw [hconditions]
  exact r.mem_conditions (by simp [hread, precommitConditions]) rfl

end

/-! ## A block -/

/-- A message to the coin of a spend. -/
def paymentTo (spendMode : Spend → Clvm) (s : Spend) : Payment :=
  ⟨spendMode s, s.coin.puzzleHash, .ofInt s.coin.amount⟩

open Classical in
/-- The precommit coins that a block spends are those that the steps pay, each of them by one
message.  They are old enough, and pay where the message says. -/
structure Redeemed (Q : Precommits) (H : HashOracle) (blocks : List Consensus.Block)
    {A : Type} (b : Consensus.Block) (steps : List (Step A)) (spendMode : Spend → Clvm) :
    Prop where
  payments_eq : (steps.map fun x => payments x.conditions).sum.filter
      (fun p => Q.IsPrecommit H p.puzzleHash)
    = ((b.spends.filter fun s => Q.IsPrecommit H s.coin.puzzleHash).map (paymentTo spendMode) :
      List Payment)
  old : ∀ s ∈ b.spends, Q.IsPrecommit H s.coin.puzzleHash → ∀ b₀ ∈ blocks, b₀.Creates s.coin →
    (b₀.height : ℤ) + Q.relativeBlockHeight < b.height
  pays : ∀ s ∈ b.spends, ∀ refundHash valueHash,
    Q.Commits H refundHash valueHash s.coin.puzzleHash → PaysOut Q H s (spendMode s) refundHash

section

variable {Q : Precommits} {P : Programs} {M M₀ : Machine} {R : Contract M₀} {kinds : List Bytes}
  {program : R.Action → Clvm} {tree : Merkle.Tree Bytes} {l₀ l l' : Ledger}
  {b : Consensus.Block} {blocks : List Consensus.Block}

open Classical in
/-- The payments to precommit coins are received by their spends. -/
theorem filter_receivedPayments {spendMode : Spend → Clvm} {ss : List Spend}
    (h : ∀ s ∈ ss, Q.IsPrecommit M.hash s.coin.puzzleHash →
      receivedPayments (P.Owned M.hash) s = {paymentTo spendMode s}) :
    (ss.map (receivedPayments (P.Owned M.hash))).sum.filter
        (fun p => Q.IsPrecommit M.hash p.puzzleHash)
      = ((ss.filter fun s => Q.IsPrecommit M.hash s.coin.puzzleHash).map (paymentTo spendMode) :
        List Payment) := by
  induction ss with
  | nil => rfl
  | cons s ss ih =>
      have ih' := ih fun s' hs' => h s' (List.mem_cons_of_mem _ hs')
      rw [List.map_cons, List.sum_cons, Multiset.filter_add, ih']
      by_cases hs : Q.IsPrecommit M.hash s.coin.puzzleHash
      · have hone : Multiset.filter (fun p => Q.IsPrecommit M.hash p.puzzleHash)
            {paymentTo spendMode s} = {paymentTo spendMode s} :=
          Multiset.filter_eq_self.2 fun p hp => by
            rw [Multiset.mem_singleton.1 hp]
            exact hs
        rw [h s List.mem_cons_self hs, hone, List.filter_cons_of_pos (by simpa using hs),
          List.map_cons, ← Multiset.cons_coe, Multiset.singleton_add]
      · have hnone : (receivedPayments (P.Owned M.hash) s).filter
            (fun p => Q.IsPrecommit M.hash p.puzzleHash) = 0 :=
          Multiset.filter_eq_nil.2 fun p hp hprecommit => by
            rw [(mem_receivedPayments hp).1] at hprecommit
            exact hs hprecommit
        rw [hnone, zero_add, List.filter_cons_of_neg (by simpa using hs)]

/-- **The precommit coins of a block are redeemed.** -/
theorem exists_redeemed (hH : M.hash.CollisionFree) (hP : P.Lawful M R kinds program tree)
    (hQ : Q.Lawful P M) (hheight : 0 ≤ Q.relativeBlockHeight) {born : Coin → ℕ}
    (htimed : Timed born blocks) (hmem : b ∈ blocks) (hb : b.Valid M l l') {e : Event R.Action}
    {turns : List (Turn R.Action)} (h : Mirrors P M R kinds b e turns) :
    ∃ spendMode, Redeemed Q M.hash blocks b e.steps spendMode := by
  have hspends : ∀ s, ∃ spendMode, s ∈ b.spends → ∀ refundHash valueHash,
      Q.Commits M.hash refundHash valueHash s.coin.puzzleHash →
        receivedPayments (P.Owned M.hash) s
          = {⟨spendMode, s.coin.puzzleHash, .ofInt s.coin.amount⟩} ∧
        .assertHeightRelative (.ofInt Q.relativeBlockHeight) ∈ s.conditions ∧
        PaysOut Q M.hash s spendMode refundHash := by
    intro s
    by_cases hs : s ∈ b.spends ∧ Q.IsPrecommit M.hash s.coin.puzzleHash
    · obtain ⟨hs, refundHash, valueHash, hcommits⟩ := hs
      obtain ⟨spendMode, hspend⟩ :=
        exists_redemption hH hQ hP.struct_hash (hb.readable s hs) (hb.asserts s hs) hcommits
      refine ⟨spendMode, fun _ refundHash' valueHash' hcommits' => ?_⟩
      obtain ⟨rfl, rfl⟩ := hcommits.unique hH hcommits'
      exact hspend
    · exact ⟨.nil, fun hmem r v hcommits => absurd ⟨hmem, r, v, hcommits⟩ hs⟩
  choose spendMode hspendMode using hspends
  refine ⟨spendMode, ?_, ?_, ?_⟩
  · rw [h.payments_eq hb hP]
    refine filter_receivedPayments fun s hs hprecommit => ?_
    obtain ⟨refundHash, valueHash, hcommits⟩ := hprecommit
    exact (hspendMode s hs refundHash valueHash hcommits).1
  · rintro s hs ⟨refundHash, valueHash, hcommits⟩
    exact htimed.matured hmem hs hheight (hspendMode s hs refundHash valueHash hcommits).2.1
  · intro s hs refundHash valueHash hcommits
    exact (hspendMode s hs refundHash valueHash hcommits).2.2

/-! ## A chain -/

/-- The precommit coins of a chain are redeemed. -/
theorem exists_redeemed_run (hH : M.hash.CollisionFree) (hM : M₀.hash = M.hash)
    (hR : R.Slotted kinds) (hP : P.Lawful M R kinds program tree) (hQ : Q.Lawful P M)
    (hheight : 0 ≤ Q.relativeBlockHeight) {tip₀ : Coin} {r₀ : Registry}
    (h₀ : Embodies P M kinds l₀ tip₀ r₀) {born : Coin → ℕ} (htimed : Timed born blocks)
    {past : List Consensus.Block} (hpast : past ⊆ blocks) (h : Follows M l₀ past l) :
    ∃ (events : List (Event R.Action)) (r : Registry) (tip : Coin),
      Run R.run r₀ events r ∧
      List.Forall₂ (fun b e => (∃ turns, Mirrors P M R kinds b e turns) ∧
        ∃ spendMode, Redeemed Q M.hash blocks b e.steps spendMode) past events ∧
      Embodies P M kinds l tip r := by
  induction h with
  | start => exact ⟨[], r₀, tip₀, .start, .nil, h₀⟩
  | @next past l l' b _ hb ih =>
      obtain ⟨events, r, tip, hrun, hevents, hr⟩ :=
        ih fun b' hb' => hpast (List.mem_append_left _ hb')
      obtain ⟨e, turns, r', tip', hmirrors, hstep, hr'⟩ := block_refines hH hM hR hP hr hb
      have hmem : b ∈ blocks := hpast (List.mem_append_right _ (List.mem_singleton_self b))
      have hredeemed := exists_redeemed hH hP hQ hheight htimed hmem hb hmirrors
      refine ⟨events ++ [e], r', tip', .next hrun hstep, ?_, hr'⟩
      exact List.rel_append hevents (.cons ⟨⟨turns, hmirrors⟩, hredeemed⟩ .nil)

end

end SlotMachine.Onchain
