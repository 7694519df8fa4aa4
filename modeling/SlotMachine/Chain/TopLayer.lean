import SlotMachine.Chain.Consensus
import SlotMachine.Puzzles.Slot

/-!
# The singleton top layer

The puzzle that makes a coin a singleton.  It asserts the amount of its coin and the id of
the parent, which it has hashed from a puzzle hash with the same layer, unless it is the
launcher, runs the inner puzzle, and wraps the one coin of odd amount that this creates into
the layer again.  The compiled puzzle is not part of the repository: `Computes` says what is
known of it.

* `morph`, `TopLayerRun`, `Computes` — what the layer does.
* `IsPuzzleHash`, `Legit` — the coins with the layer, and those that can be spent.
* `exists_run` — a spend of such a coin runs an inner puzzle.
* `legitimacy`, `TopLayerRun.only`, `advance` — **singletons are handed on** from coin to
  coin.
* `TopLayerRun.filterMap_conditions` — the layer passes messages on.
-/

namespace SlotMachine.Lineage

open Consensus

/-- The amount is odd. -/
def oddAmount : Clvm → Bool
  | .atom b => decide (intFromBytes b % 2 = 1)
  | .pair _ _ => false

/-- The condition creates a coin of odd amount. -/
def createsOdd : Condition → Bool
  | .createCoin _ amount _ => oddAmount amount
  | _ => false

/-- The amount that melts a singleton. -/
def meltAmount : Clvm := .ofInt (-113)

theorem createsOdd_of_payless {c : Condition} (h : c.Payless) : createsOdd c = false := by
  cases c with
  | createCoin puzzleHash amount memos =>
      obtain rfl : amount = .nil := h
      rfl
  | _ => rfl

namespace SingletonTopLayer

variable (T : SingletonTopLayer)

/-- What becomes of a condition of the inner puzzle: the coin of odd amount gets the layer,
or is left out if it melts the singleton. -/
def morph (H : HashOracle) (structHash : Bytes) : Condition → Option Condition
  | .createCoin puzzleHash amount memos =>
      if oddAmount amount then
        if amount = meltAmount then none
        else (H.curryTreeHash (.atom T.modHash) [.atom structHash, puzzleHash]).map fun d =>
          .createCoin (.atom d) amount memos
      else some (.createCoin puzzleHash amount memos)
  | c => some c

/-- What a spend with this layer has done when it returned `out`. -/
structure TopLayerRun (M : Machine) (launcherId : Bytes) (innerPuzzle out : Clvm) where
  innerSolution : Clvm
  innerOut : Clvm
  structHash : Bytes
  parentId : Bytes
  amount : Clvm
  inner_eq : M.eval innerPuzzle innerSolution = some innerOut
  struct_eq : M.hash.treeHash (T.struct launcherId) = some structHash
  odd : oddAmount amount = true
  /-- The parent is the launcher, or its id is the hash of an id of 32 bytes, a puzzle hash
  with the layer, and some amount. -/
  parent : parentId = launcherId ∨ ∃ (info : Bytes) (inner : Clvm) (ph parentAmount : Bytes),
    info.length = 32 ∧
      M.hash.curryTreeHash (.atom T.modHash) [.atom structHash, inner] = some ph ∧
      M.hash.digest (info ++ ph ++ parentAmount) = some parentId
  conditions_eq : conditionsOf out = .assertMyAmount amount :: .assertMyParentId (.atom parentId) ::
    (conditionsOf innerOut).filterMap (T.morph M.hash structHash)
  /-- The inner puzzle creates one coin of odd amount. -/
  one : ∃ c, (conditionsOf innerOut).filter createsOdd = [c]
  /-- The layer was hashed, unless this melts the singleton. -/
  wraps : ∀ ph amount memos, .createCoin ph amount memos ∈ conditionsOf innerOut →
    oddAmount amount = true → amount ≠ meltAmount →
    ∃ d, M.hash.curryTreeHash (.atom T.modHash) [.atom structHash, ph] = some d

/-- What is known of the compiled layer. -/
structure Computes (M : Machine) : Prop where
  treeHash_program : M.hash.treeHash T.program = some T.modHash
  run : ∀ {launcherId : Bytes} {innerPuzzle solution out : Clvm},
    M.eval (T.puzzle launcherId innerPuzzle) solution = some out →
    Nonempty (T.TopLayerRun M launcherId innerPuzzle out)

/-- The puzzle hash is one with the layer. -/
def IsPuzzleHash (H : HashOracle) (launcherId ph : Bytes) : Prop :=
  ∃ structHash inner, H.treeHash (T.struct launcherId) = some structHash ∧
    H.curryTreeHash (.atom T.modHash) [.atom structHash, inner] = some ph

/-- The coin has the layer. -/
def Bears (H : HashOracle) (launcherId : Bytes) (c : Coin) : Prop :=
  T.IsPuzzleHash H launcherId c.puzzleHash

/-- The coin can be spent: it has the layer and an odd amount, and comes from a coin with
the layer or from the launcher. -/
def Legit (H : HashOracle) (launcherId : Bytes) (launcher c : Coin) : Prop :=
  T.Bears H launcherId c ∧ c.amount % 2 = 1 ∧
    ∃ p, ChildOf H c p ∧ (T.Bears H launcherId p ∨ p = launcher)

variable {T} {M : Machine} {launcherId : Bytes}

theorem legitimacy (hH : M.hash.CollisionFree) (launcher : Coin) :
    Baton.Legitimacy (ChildOf M.hash) (T.Bears M.hash launcherId)
      (T.Legit M.hash launcherId launcher) launcher where
  bears_of_legit _ h := h.1
  parent := by
    intro c p hp hlegit
    obtain ⟨-, -, p', hp', hcases⟩ := hlegit
    rwa [hp.unique hH hp']

/-- A coin has the layer of one singleton. -/
theorem Bears.unique {H : HashOracle} (hH : H.CollisionFree) {id id' : Bytes} {c : Coin}
    (h : T.Bears H id c) (h' : T.Bears H id' c) : id = id' := by
  obtain ⟨structHash, inner, hstruct, hcurry⟩ := h
  obtain ⟨structHash', inner', hstruct', hcurry'⟩ := h'
  obtain ⟨-, harguments⟩ := HashOracle.curryTreeHash_inj hH hcurry hcurry'
  simp only [List.cons.injEq, Clvm.atom.injEq, and_true] at harguments
  obtain ⟨rfl, -⟩ := harguments
  have hsame := HashOracle.treeHash_inj hH hstruct hstruct'
  simpa [struct] using hsame

/-- What `morph` does to a condition that creates no odd coin. -/
theorem morph_of_not_odd {H : HashOracle} {structHash : Bytes} {c : Condition}
    (h : createsOdd c = false) : T.morph H structHash c = some c := by
  cases c with
  | createCoin puzzleHash amount memos =>
      have hodd : oddAmount amount = false := h
      simp only [morph, hodd, Bool.false_eq_true, if_false]
  | _ => rfl

/-- A coin of odd amount that comes out of `morph` has the layer. -/
theorem morph_eq_createCoin {H : HashOracle} {structHash : Bytes} {c : Condition}
    {puzzleHash amount : Clvm} {memos : List Clvm} (hodd : oddAmount amount = true)
    (h : T.morph H structHash c = some (.createCoin puzzleHash amount memos)) :
    createsOdd c = true ∧ ∃ ph d, c = .createCoin ph amount memos ∧ puzzleHash = .atom d ∧
      H.curryTreeHash (.atom T.modHash) [.atom structHash, ph] = some d := by
  cases c with
  | createCoin ph amount' memos' =>
      rw [morph] at h
      split at h
      · split at h
        · cases h
        · obtain ⟨d, hd, heq⟩ := Option.map_eq_some_iff.1 h
          obtain ⟨rfl, rfl, rfl⟩ := Condition.createCoin.inj heq
          exact ⟨hodd, ph, d, rfl, rfl, hd⟩
      · obtain ⟨-, rfl, -⟩ := Condition.createCoin.inj (Option.some.inj h)
        exact absurd hodd ‹_›
  | _ => simp only [morph, Option.some.injEq, reduceCtorEq] at h

/-- A coin of odd amount, as nodes read the amount. -/
theorem odd_of_readUint {amount : Clvm} {n : ℕ} (h : readUint 8 amount = .value n) :
    oddAmount amount = decide (n % 2 = 1) := by
  cases amount with
  | pair _ _ => cases h
  | atom b =>
      rw [readUint] at h
      split at h
      · cases h
      split at h
      · cases h
      split at h
      · rename_i hneg _ _
        obtain rfl := Reading.value.inj h
        rw [oddAmount, decide_eq_decide]
        omega
      · cases h

/-! ## A spend of a singleton -/

/-- **A coin with the layer is spent by running it.** -/
theorem exists_run (hH : M.hash.CollisionFree) (hT : T.Computes M) {s : Spend} (hs : s.Readable M)
    (hbears : T.Bears M.hash launcherId s.coin) :
    ∃ innerPuzzle b out, s.spend.puzzleReveal = T.puzzle launcherId innerPuzzle ∧
      M.hash.treeHash innerPuzzle = some b ∧ s.conditions = conditionsOf out ∧
      ∃ r : T.TopLayerRun M launcherId innerPuzzle out,
        M.hash.curryTreeHash (.atom T.modHash) [.atom r.structHash, .atom b]
          = some s.coin.puzzleHash := by
  obtain ⟨structHash, inner, hstruct, hcurry⟩ := hbears
  obtain ⟨program, _, modHash, heq, hmod, hprogram, harguments⟩ :=
    HashOracle.exists_curry_of_treeHash hH hs.reveal hcurry
  rw [← Clvm.atom.inj hmod] at hprogram
  obtain rfl := HashOracle.treeHash_inj hH hprogram hT.treeHash_program
  cases harguments with
  | cons hfirst hrest =>
    obtain ⟨structHash', hsame, hfirst⟩ := hfirst
    rw [← Clvm.atom.inj hsame] at hfirst
    obtain rfl := HashOracle.treeHash_inj hH hfirst hstruct
    cases hrest with
    | cons hsecond hnil =>
      obtain ⟨b, rfl, hsecond⟩ := hsecond
      cases hnil
      obtain ⟨out, hout, hconditions⟩ := hs.runs
      rw [heq] at hout
      obtain ⟨r⟩ := hT.run hout
      refine ⟨_, b, out, heq, hsecond, hconditions, r, ?_⟩
      rw [Option.some.inj (r.struct_eq.symm.trans hstruct)]
      exact hcurry

namespace TopLayerRun

variable {innerPuzzle out : Clvm}

/-- The layer asserts the amount and the parent of the coin. -/
theorem asserted (r : T.TopLayerRun M launcherId innerPuzzle out) {s : Spend}
    (hconditions : s.conditions = conditionsOf out) {height timestamp : ℕ}
    (hasserts : ∀ c ∈ s.conditions, s.Asserts height timestamp c) :
    r.amount = .ofInt s.coin.amount ∧ r.parentId = s.coin.parentCoinInfo := by
  rw [hconditions, r.conditions_eq] at hasserts
  have hamount := hasserts _ List.mem_cons_self
  have hparent := hasserts _ (List.mem_cons_of_mem _ List.mem_cons_self)
  exact ⟨hamount, Clvm.atom.inj hparent⟩

/-- **The coin descends from the launcher** or from a coin with the layer, and its amount
is odd. -/
theorem descends (r : T.TopLayerRun M launcherId innerPuzzle out) (hH : M.hash.CollisionFree)
    {s : Spend} (hconditions : s.conditions = conditionsOf out) {height timestamp : ℕ}
    (hasserts : ∀ c ∈ s.conditions, s.Asserts height timestamp c)
    (horigin : Orphan M.hash s.coin ∨ ∃ p, ChildOf M.hash s.coin p) :
    s.coin.amount % 2 = 1 ∧ (s.coin.parentCoinInfo = launcherId ∨
      ∃ p, ChildOf M.hash s.coin p ∧ T.Bears M.hash launcherId p) := by
  obtain ⟨hamount, hparent⟩ := r.asserted hconditions hasserts
  constructor
  · have hodd := r.odd
    rw [hamount, Clvm.ofInt, oddAmount, intFromBytes_intToBytes] at hodd
    have hcast := of_decide_eq_true hodd
    omega
  · rcases r.parent with heq | ⟨info, inner, ph, parentAmount, hlength, hcurry, hdigest⟩
    · exact Or.inl (hparent.symm.trans heq)
    · rw [hparent] at hdigest
      obtain ⟨p, hp⟩ := horigin.resolve_left fun horphan => horphan _ hdigest
      refine Or.inr ⟨p, hp, _, inner, r.struct_eq, ?_⟩
      rwa [Coin.puzzleHash_eq_of_digest hH hp hlength (HashOracle.length_curryTreeHash hcurry)
        hdigest]

/-- **The coin is legitimate.** -/
theorem legit (r : T.TopLayerRun M launcherId innerPuzzle out) (hH : M.hash.CollisionFree)
    {launcher : Coin} (hlauncher : launcher.id M.hash = some launcherId) {s : Spend}
    (hconditions : s.conditions = conditionsOf out)
    (hbears : T.Bears M.hash launcherId s.coin) {height timestamp : ℕ}
    (hasserts : ∀ c ∈ s.conditions, s.Asserts height timestamp c)
    (horigin : Orphan M.hash s.coin ∨ ∃ p, ChildOf M.hash s.coin p) :
    T.Legit M.hash launcherId launcher s.coin := by
  obtain ⟨hodd, hparent | ⟨p, hp, hbears'⟩⟩ := r.descends hH hconditions hasserts horigin
  · refine ⟨hbears, hodd, launcher, ?_, Or.inr rfl⟩
    rw [ChildOf, hlauncher, hparent]
  · exact ⟨hbears, hodd, p, hp, Or.inl hbears'⟩

/-- Whatever is read from conditions that create no coins is read from those of the inner
puzzle. -/
theorem filterMap_conditions (r : T.TopLayerRun M launcherId innerPuzzle out) {α : Type}
    (f : Condition → Option α)
    (hcreate : ∀ puzzleHash amount memos, f (.createCoin puzzleHash amount memos) = none)
    (hamount : ∀ amount, f (.assertMyAmount amount) = none)
    (hparent : ∀ id, f (.assertMyParentId id) = none) :
    (conditionsOf out).filterMap f = (conditionsOf r.innerOut).filterMap f := by
  rw [r.conditions_eq, List.filterMap_cons_none (hamount _), List.filterMap_cons_none (hparent _),
    List.filterMap_filterMap]
  refine List.filterMap_congr fun c _ => ?_
  cases c with
  | createCoin puzzleHash amount memos =>
      rw [hcreate]
      cases hmorph : T.morph M.hash r.structHash (.createCoin puzzleHash amount memos) with
      | none => rfl
      | some c' =>
          rw [morph] at hmorph
          split at hmorph
          · split at hmorph
            · cases hmorph
            · obtain ⟨d, -, rfl⟩ := Option.map_eq_some_iff.1 hmorph
              exact hcreate _ _ _
          · rw [← Option.some.inj hmorph]
            exact hcreate _ _ _
  | _ => rfl

/-- **One coin that the spend creates is legitimate**: the odd coin of the inner puzzle,
with the layer. -/
theorem only (r : T.TopLayerRun M launcherId innerPuzzle out) {s : Spend} (hs : s.Readable M)
    (hconditions : s.conditions = conditionsOf out)
    (hbears : T.Bears M.hash launcherId s.coin) (launcher : Coin) {inner amount : Clvm}
    {memos : List Clvm}
    (hone : (conditionsOf r.innerOut).filter createsOdd = [.createCoin inner amount memos])
    (hamount : amount ≠ meltAmount) {d : Bytes}
    (hd : M.hash.curryTreeHash (.atom T.modHash) [.atom r.structHash, inner] = some d) :
    ∃ next, Baton.Only (T.Legit M.hash launcherId launcher) next s.created ∧
      next.puzzleHash = d := by
  have hmem : .createCoin inner amount memos ∈ (conditionsOf r.innerOut).filter createsOdd :=
    hone ▸ List.mem_singleton_self _
  obtain ⟨hinner, hodd⟩ := List.mem_filter.1 hmem
  have hoddAmount : oddAmount amount = true := hodd
  have hout : .createCoin (.atom d) amount memos ∈ s.conditions := by
    rw [hconditions, r.conditions_eq]
    refine List.mem_cons_of_mem _ (List.mem_cons_of_mem _
      (List.mem_filterMap.2 ⟨_, hinner, ?_⟩))
    rw [morph, if_pos hoddAmount, if_neg hamount, hd]
    rfl
  obtain ⟨next, hnext⟩ := Option.isSome_iff_exists.1 (hs.creates _ _ _ hout)
  obtain ⟨_, _, _, n, heq, hread, rfl⟩ := Spend.created?_eq_some.1 hnext
  obtain ⟨hph, rfl, rfl⟩ := Condition.createCoin.inj heq
  obtain rfl := Clvm.atom.inj hph
  have hn : n % 2 = 1 := by
    rw [odd_of_readUint hread] at hoddAmount
    exact of_decide_eq_true hoddAmount
  refine ⟨⟨s.id, d, n⟩,
    Baton.only_of_nodup hs.nodup (Spend.mem_created.2 ⟨_, hout, hnext⟩) ?_ ?_, rfl⟩
  · exact ⟨⟨_, _, r.struct_eq, hd⟩, hn, s.coin, hs.id_eq, Or.inl hbears⟩
  · -- every other coin of odd amount would be another odd coin of the inner puzzle
    intro c hc hlegit
    obtain ⟨condition, hcondition, hcreated⟩ := Spend.mem_created.1 hc
    obtain ⟨ph, amount', memos', n', rfl, hread', rfl⟩ := Spend.created?_eq_some.1 hcreated
    have hodd' : oddAmount amount' = true := by
      rw [odd_of_readUint hread']
      exact decide_eq_true hlegit.2.1
    rw [hconditions, r.conditions_eq, List.mem_cons, List.mem_cons] at hcondition
    rcases hcondition with hcondition | hcondition | hcondition
    · cases hcondition
    · cases hcondition
    obtain ⟨c₀, hc₀, hmorph⟩ := List.mem_filterMap.1 hcondition
    obtain ⟨hodd₀, ph₀, d', rfl, hd', hcurry⟩ := morph_eq_createCoin hodd' hmorph
    have hmem₀ : .createCoin ph₀ amount' memos' ∈ (conditionsOf r.innerOut).filter createsOdd :=
      List.mem_filter.2 ⟨hc₀, hodd₀⟩
    rw [hone, List.mem_singleton] at hmem₀
    obtain ⟨rfl, rfl, rfl⟩ := Condition.createCoin.inj hmem₀
    rw [hd] at hcurry
    obtain rfl := Option.some.inj hcurry
    rw [hread] at hread'
    rw [Clvm.atom.inj hd', Reading.value.inj hread']

end TopLayerRun

/-- **A block hands the singleton on**, if each spend of a good coin creates a good one. -/
theorem advance (hH : M.hash.CollisionFree) (hT : T.Computes M) {launcher : Coin}
    (hlauncher : launcher.id M.hash = some launcherId) {good : Coin → Prop} {l l' : Ledger}
    {b : Consensus.Block} (hb : b.Valid M l l')
    (hl : l.WellFormed (ChildOf M.hash) (Orphan M.hash)) {tip : Coin}
    (htip : Baton.Tip (T.Legit M.hash launcherId launcher) good launcher l tip)
    (hgood : ∀ s ∈ b.spends, T.Bears M.hash launcherId s.coin → good s.coin →
      ∃ next, good next ∧ Baton.Only (T.Legit M.hash launcherId launcher) next s.created) :
    ∃ tip', Baton.Passes (T.Bears M.hash launcherId) (T.Legit M.hash launcherId launcher)
        Spend.coin Spend.created tip b.spends tip' ∧
      Baton.Tip (T.Legit M.hash launcherId launcher) good launcher l' tip' := by
  have hrewarded := hl.reward (Multiset.coe_nodup.2 hb.rewards_nodup) hb.rewards_fresh
    hb.rewards_orphan
  have htip' : Baton.Tip (T.Legit M.hash launcherId launcher) good launcher
      ⟨l.spent, l.unspent + b.rewards⟩ tip := htip.reward fun c hc hlegit => by
    obtain ⟨-, -, p, hp, -⟩ := hlegit
    exact (ancestry hH).orphan c p (hb.rewards_orphan c hc) hp
  refine htip'.passes (legitimacy hH launcher) (ancestry hH) hb.spends ?_ hrewarded
  intro s hs
  refine ⟨(hb.readable s hs).begets, fun hbears => ?_⟩
  obtain ⟨_, _, out, -, -, hconditions, r, -⟩ := exists_run hH hT (hb.readable s hs) hbears
  exact ⟨r.legit hH hlauncher hconditions hbears (hb.asserts s hs) (hb.exists_parent hl hs),
    hgood s hs hbears⟩

end SingletonTopLayer

end SlotMachine.Lineage
