import SlotMachine.Clvm.Extension
import SlotMachine.Verification.Puzzles

/-!
# Offers for a verification

An issuer offers a coin with the asserter for the verification of a CAT.  The solution of
the asserter is up to whoever takes the offer, and so is every other coin of the block.

* `Programs` — the compiled puzzles; `Programs.asserter` is the asserter of an offer.
* `Endorses` — **the spend of a verification singleton**, launched by the verifier, with
  the data of the offer.
* `verification_offer_sound` — no other spend satisfies an asserter.
-/

namespace SlotMachine.Verification

open Clvm Lineage

/-- The compiled puzzles that an offer rests on. -/
structure Programs where
  topLayer : SingletonTopLayer
  verification : Clvm
  catalogVerificationMaker : Clvm

/-- What the machine returns for a compiled puzzle is what its source says. -/
structure Programs.Lawful (P : Programs) (M : Machine) : Prop where
  topLayer : P.topLayer.Lawful M
  verification : ∀ {c : Curried} {solution out : Clvm},
    M.eval (puzzle P.verification c) solution = some out →
    (main M.hash c solution).map encode = some out
  catalogVerificationMaker : ∀ {c : CatalogVerificationMaker.Curried} {solution out : Clvm},
    M.eval (curry P.catalogVerificationMaker c.toList) solution = some out →
    (CatalogVerificationMaker.main M.hash c solution).map .atom = some out

/-- What is asked for: the launcher of the verifier, the singleton that may revoke, and the
data. -/
structure Request where
  verifier : Bytes
  revocationSingletonStruct : Clvm
  version : Bytes
  assetId : Bytes
  dataHash : Bytes

/-- The asserter of an offer. -/
def Programs.asserter (P : Programs) (M : Machine) (r : Request) :
    Option VerificationAsserter.Curried := do
  let structHash ← M.hash.treeHash (P.topLayer.struct r.verifier)
  let selfHash ← M.hash.treeHash (curry P.verification [r.revocationSingletonStruct])
  let assetIdHash ← M.hash.treeHashAtom (.atom r.assetId)
  let dataHashHash ← M.hash.treeHashAtom (.atom r.dataHash)
  let maker : CatalogVerificationMaker.Curried :=
    ⟨.atom selfHash, .atom r.version, .atom assetIdHash, .atom dataHashHash⟩
  return ⟨.atom P.topLayer.modHash, .atom P.topLayer.launcherPuzzleHash, .atom structHash,
    curry P.catalogVerificationMaker maker.toList⟩

/-- The third part of the solution of a singleton, for its inner puzzle, asks for the oracle
branch. -/
def InOracleMode (solution : Clvm) : Prop :=
  ∃ lineageProof myAmount innerSolution rest,
    solution = .pair lineageProof (.pair myAmount (.pair innerSolution rest)) ∧
    innerSolution.first = some .nil

/-- **The spend endorses what is asked for**: it is the spend, in oracle mode, of a genuine
verification singleton with exactly the data and a comment.  Its launcher is a child of a
genuine coin of the verifier. -/
def Endorses (P : Programs) (M : Machine) (spends : List CoinSpend) (r : Request)
    (spend : CoinSpend) : Prop :=
  ∃ launcherId selfHash comment,
    M.hash.treeHash (curry P.verification [r.revocationSingletonStruct]) = some selfHash ∧
    spend.puzzleReveal = P.topLayer.puzzle launcherId (puzzle P.verification
      ⟨r.revocationSingletonStruct, .atom selfHash,
        verifiedData r.version r.assetId r.dataHash comment⟩) ∧
    InOracleMode spend.solution ∧
    P.topLayer.Genuine M spends launcherId spend.coin ∧
    ∃ launcher ∈ spends, launcher.coin.id M.hash = some launcherId ∧
      launcher.coin.puzzleHash = P.topLayer.launcherPuzzleHash ∧
      ∃ parent ∈ spends, parent.coin.id M.hash = some launcher.coin.parentCoinInfo ∧
        P.topLayer.Genuine M spends r.verifier parent.coin

section

variable {P : Programs} {M : Machine}

/-- A puzzle announcement with the hash of a puzzle hash alone is made by that puzzle. -/
theorem puzzleHash_eq_of_makes (hH : M.hash.CollisionFree) {puzzleHash message other id : Bytes}
    (hlen : puzzleHash.length = 32) (hother : other.length = 32)
    (h : M.hash.digest (puzzleHash ++ message) = some id) (h' : M.hash.digest other = some id) :
    puzzleHash = other := by
  have hsame : puzzleHash ++ message = other ++ [] := by
    rw [List.append_nil]
    exact hH h h'
  exact (List.append_inj hsame (hlen.trans hother.symm)).1

/-- **An inner puzzle with the hash that the maker computes** is the verification puzzle with
the locked data. -/
theorem exists_comment (hH : M.hash.CollisionFree) (hC : Chialisp.CurryConstants M.hash)
    (hP : P.Lawful M) {r : Request} {selfHash assetIdHash dataHashHash b : Bytes}
    (hself : M.hash.treeHash (curry P.verification [r.revocationSingletonStruct]) = some selfHash)
    (hassetId : M.hash.treeHashAtom (.atom r.assetId) = some assetIdHash)
    (hdataHash : M.hash.treeHashAtom (.atom r.dataHash) = some dataHashHash)
    {makerSolution innerPuzzle : Clvm}
    (hmaker : M.eval (curry P.catalogVerificationMaker (CatalogVerificationMaker.Curried.toList
      ⟨.atom selfHash, .atom r.version, .atom assetIdHash, .atom dataHashHash⟩)) makerSolution
        = some (.atom b))
    (hinner : M.hash.treeHash innerPuzzle = some b) :
    ∃ comment, innerPuzzle = puzzle P.verification ⟨r.revocationSingletonStruct, .atom selfHash,
      verifiedData r.version r.assetId r.dataHash comment⟩ := by
  obtain ⟨b', hmain, hb⟩ := Option.map_eq_some_iff.1 (hP.catalogVerificationMaker hmaker)
  rw [Clvm.atom.inj hb] at hmain
  obtain ⟨comment, selfHashHash, verifiedDataHash, -, hselfHash, hdata, hcurry⟩ :=
    CatalogVerificationMaker.exists_verifiedData hC hassetId hdataHash hmain
  obtain ⟨program, _, self, rfl, hsame, hprogram, harguments⟩ :=
    HashOracle.exists_curry_of_treeHash hH hinner hcurry
  rw [← Clvm.atom.inj hsame] at hprogram
  obtain rfl := HashOracle.treeHash_inj hH hprogram hself
  cases harguments with
  | cons hfirst hrest =>
    obtain ⟨_, hx, hfirst⟩ := hfirst
    rw [← Clvm.atom.inj hx] at hfirst
    obtain rfl := HashOracle.treeHash_inj hH hfirst hselfHash
    cases hrest with
    | cons hsecond hnil =>
      obtain ⟨_, hy, hsecond⟩ := hsecond
      rw [← Clvm.atom.inj hy] at hsecond
      obtain rfl := HashOracle.treeHash_inj hH hsecond hdata
      cases hnil
      exact ⟨comment, rfl⟩

/-- A verification that announces is in oracle mode. -/
theorem inOracleMode_of_announces (hP : P.Lawful M) {launcherId message : Bytes} {c : Curried}
    {solution conditions : Clvm}
    (hrun : M.eval (P.topLayer.puzzle launcherId (puzzle P.verification c)) solution
      = some conditions)
    (hannounces : Announces conditions message) : InOracleMode solution := by
  obtain ⟨lineageProof, myAmount, innerSolution, rest, innerConditions, hsolution, hinner,
    hannounces⟩ := hP.topLayer.announces hrun hannounces
  obtain ⟨cs, hmain, rfl⟩ := Option.map_eq_some_iff.1 (hP.verification hinner)
  exact ⟨lineageProof, myAmount, innerSolution, rest, hsolution,
    (oracle_of_announces hmain (announces_encode.1 hannounces)).1⟩

/-- **The launcher that the asserter computes is a child of the verifier.** -/
theorem exists_verifier (hH : M.hash.CollisionFree) (hP : P.Lawful M) (chain : Chain M)
    (hgenuine : ∀ spend ∈ chain.spends, ∀ launcherId innerPuzzle,
      spend.puzzleReveal = P.topLayer.puzzle launcherId innerPuzzle →
      P.topLayer.Genuine M chain.spends launcherId spend.coin)
    {verifier structHash id : Bytes} {maker : Clvm}
    (hstruct : M.hash.treeHash (P.topLayer.struct verifier) = some structHash)
    (a : VerificationAsserter.Assertion M P.topLayer.modHash P.topLayer.launcherPuzzleHash
      structHash maker id) {launcher : CoinSpend} (hlauncher : launcher ∈ chain.spends)
    (hid : launcher.coin.id M.hash = some a.launcherId) :
    ∃ parent ∈ chain.spends, parent.coin.id M.hash = some launcher.coin.parentCoinInfo ∧
      P.topLayer.Genuine M chain.spends verifier parent.coin := by
  obtain ⟨hverifier, -⟩ := Coin.eq_of_id hH hid a.launcherId_eq
  have hverifierId := a.verifierId_eq
  rw [Clvm.atom.inj hverifier] at hverifierId
  rcases chain.created launcher hlauncher with hreward | ⟨parent, hparent, hparentId⟩
  · obtain ⟨coin, hcoin, -, -⟩ := exists_coin_of_coinid hverifierId
    exact absurd hreward (chain.reward_ne coin _ hcoin)
  · obtain ⟨-, hpuzzleHash⟩ := Coin.eq_of_id hH hparentId hverifierId
    have hreveal := chain.reveal parent hparent
    rw [← Clvm.atom.inj hpuzzleHash] at hreveal
    obtain ⟨innerPuzzle, _, hpuzzle, -, -⟩ :=
      SingletonTopLayer.exists_innerPuzzle hH hP.topLayer hstruct hreveal a.verifierPuzzleHash_eq
    exact ⟨parent, hparent, hparentId, hgenuine parent hparent _ _ hpuzzle⟩

end

/-- An asserter waits for one announcement.  Whatever its solution was, every spend of the
block that makes this announcement endorses what was asked for, so that the announcement is
only made if there is such a spend. -/
theorem verification_offer_sound (M : Machine) (hH : M.hash.CollisionFree)
    (hC : Chialisp.CurryConstants M.hash) (P : Programs) (hP : P.Lawful M) (chain : Chain M)
    (hgenuine : ∀ spend ∈ chain.spends, ∀ launcherId innerPuzzle,
      spend.puzzleReveal = P.topLayer.puzzle launcherId innerPuzzle →
      P.topLayer.Genuine M chain.spends launcherId spend.coin)
    (block : List CoinSpend) (hblock : block ⊆ chain.spends) (r : Request)
    (asserter : VerificationAsserter.Curried) (hasserter : P.asserter M r = some asserter)
    (solution : Clvm) (conditions : List Condition)
    (hmain : VerificationAsserter.main M asserter solution = some conditions) :
    ∃ id, conditions = [.assertPuzzleAnnouncement (.atom id)] ∧
      (∀ spend ∈ block, spend.Makes M id → Endorses P M chain.spends r spend) ∧
      (Announced M block id → ∃ spend ∈ block, Endorses P M chain.spends r spend) := by
  obtain ⟨structHash, hstruct, hasserter⟩ := bind_elim hasserter
  obtain ⟨selfHash, hself, hasserter⟩ := bind_elim hasserter
  obtain ⟨assetIdHash, hassetId, hasserter⟩ := bind_elim hasserter
  obtain ⟨dataHashHash, hdataHash, hasserter⟩ := bind_elim hasserter
  obtain rfl := Option.some.inj hasserter
  obtain ⟨id, hconditions, ⟨a⟩⟩ := VerificationAsserter.exists_assertion hC hmain
  have hall : ∀ spend ∈ block, spend.Makes M id → Endorses P M chain.spends r spend := by
    intro spend hspend hmakes
    obtain ⟨out, message, hrun, hannounces, hdigest⟩ := hmakes
    have hreveal := chain.reveal spend (hblock hspend)
    rw [puzzleHash_eq_of_makes hH (HashOracle.length_treeHash hreveal)
      (HashOracle.length_curryTreeHash a.puzzleHash_eq) hdigest a.announcement_eq] at hreveal
    -- the reveal is a singleton, and its inner puzzle the one the maker was asked for
    obtain ⟨innerPuzzle, b, hpuzzle, hb, hinner⟩ :=
      SingletonTopLayer.exists_innerPuzzle hH hP.topLayer a.struct_eq hreveal a.puzzleHash_eq
    have hmaker := a.innerPuzzleHash_eq
    rw [hb] at hmaker
    obtain ⟨comment, rfl⟩ := exists_comment hH hC hP hself hassetId hdataHash hmaker hinner
    rw [hpuzzle] at hrun
    have hspendGenuine := hgenuine spend (hblock hspend) _ _ hpuzzle
    obtain ⟨launcher, hlauncher, hid, hpuzzleHash⟩ := hspendGenuine.exists_launcher
    exact ⟨a.launcherId, selfHash, comment, hself, hpuzzle, inOracleMode_of_announces hP hrun hannounces,
      hspendGenuine, launcher, hlauncher, hid, hpuzzleHash,
      exists_verifier hH hP chain hgenuine hstruct a hlauncher hid⟩
  refine ⟨id, hconditions, hall, ?_⟩
  rintro ⟨spend, hspend, hmakes⟩
  exact ⟨spend, hspend, hall spend hspend hmakes⟩

/-! ## An offer that is taken -/

namespace OfferExample

def filled (n : Byte) : Bytes := List.replicate 32 n

/-- Stand-ins for the compiled puzzles. -/
def topProgram : Clvm := .atom [84]

def launcherProgram : Clvm := .atom [76]

def verificationProgram : Clvm := .atom [86]

def makerProgram : Clvm := .atom [77]

/-- The inner puzzle of the verifier. -/
def issuer : Clvm := .atom [73]

def revocation : Clvm := .atom (filled 9)

def treeHash (v : Clvm) : Bytes := (Skeleton.ofClvm v).hash

def topLayer : SingletonTopLayer := ⟨topProgram, treeHash topProgram, treeHash launcherProgram⟩

def programs : Programs := ⟨topLayer, verificationProgram, makerProgram⟩

/-- The parent of a reward. -/
def reward : Bytes := filled 0

def verifierLauncher : Coin := ⟨reward, topLayer.launcherPuzzleHash, 1⟩

def verifierLauncherMessage : Bytes := reward ++ topLayer.launcherPuzzleHash ++ [1]

def verifierLauncherId : Bytes := Sha256.hash verifierLauncherMessage

def verifierStructHash : Bytes := treeHash (topLayer.struct verifierLauncherId)

def verifierPuzzleHash : Bytes :=
  (Skeleton.curry topLayer.modHash [verifierStructHash, treeHash issuer]).hash

def verifier : Coin := ⟨verifierLauncherId, verifierPuzzleHash, 1⟩

def verifierMessage : Bytes := verifierLauncherId ++ verifierPuzzleHash ++ [1]

def verifierId : Bytes := Sha256.hash verifierMessage

def launcher : Coin := ⟨verifierId, topLayer.launcherPuzzleHash, 0⟩

def launcherMessage : Bytes := verifierId ++ topLayer.launcherPuzzleHash ++ []

def launcherId : Bytes := Sha256.hash launcherMessage

def request : Request := ⟨verifierLauncherId, revocation, [1], filled 3, filled 4⟩

def comment : Bytes := [111, 107]

def selfHash : Bytes := (Skeleton.curry (treeHash verificationProgram) [treeHash revocation]).hash

def data : Clvm := verifiedData request.version request.assetId request.dataHash comment

def curried : Curried := ⟨revocation, .atom selfHash, data⟩

def innerHash : Bytes := (Skeleton.curry selfHash [treeHash (.atom selfHash), treeHash data]).hash

def structHash : Bytes := treeHash (topLayer.struct launcherId)

def puzzleHash : Bytes := (Skeleton.curry topLayer.modHash [structHash, innerHash]).hash

def verification : Coin := ⟨launcherId, puzzleHash, 1⟩

/-- Everything that is hashed. -/
def skeletons : List Skeleton :=
  [.ofClvm .nil, .ofClvm (.atom [1]), .ofClvm (.atom [2]), .ofClvm (.atom [4]),
    .ofClvm topProgram, .ofClvm launcherProgram, .ofClvm verificationProgram, .ofClvm issuer,
    .ofClvm revocation, .ofClvm (.atom selfHash), .ofClvm data,
    .ofClvm (.atom request.assetId), .ofClvm (.atom request.dataHash),
    .ofClvm (topLayer.struct verifierLauncherId), .ofClvm (topLayer.struct launcherId),
    .curry (treeHash verificationProgram) [treeHash revocation],
    .curry selfHash [treeHash (.atom selfHash), treeHash data],
    .curry topLayer.modHash [verifierStructHash, treeHash issuer],
    .curry topLayer.modHash [structHash, innerHash]]

def messages : List Bytes :=
  [verifierLauncherMessage, verifierMessage, launcherMessage, puzzleHash ++ []]

def table : HashOracle := .ofTranscript skeletons messages

theorem table_collisionFree : table.CollisionFree :=
  HashOracle.ofTranscript_collisionFree (by decide +kernel)

/-- No coin has the id of the parent of a reward. -/
theorem reward_ne : ∀ e ∈ skeletons.flatMap Skeleton.entries ++ HashOracle.entries messages,
    e.1 ≠ HashOracle.number reward := by
  decide +kernel

theorem le_table : HashOracle.ofSkeletons skeletons ≤ table :=
  HashOracle.ofSkeletons_le_ofTranscript _ _

theorem treeHash_eq {v : Clvm} (h : Skeleton.ofClvm v ∈ skeletons) :
    table.treeHash v = some (treeHash v) :=
  HashOracle.treeHash_mono le_table (HashOracle.treeHash_ofSkeletons h)

theorem curryTreeHash_eq {m : Bytes} {ps : List Bytes} (h : Skeleton.curry m ps ∈ skeletons) :
    table.curryTreeHash (.atom m) (ps.map .atom) = some (Skeleton.curry m ps).hash :=
  HashOracle.curryTreeHash_mono le_table (HashOracle.curryTreeHash_ofSkeletons h)

theorem digest_eq {m : Bytes} (h : m ∈ messages) : table.digest m = some (Sha256.hash m) :=
  HashOracle.digest_ofTranscript h

/-- What the table has of `curry.clib` is what SHA-256 has. -/
theorem table_curryConstants : Chialisp.CurryConstants table := by
  have hle : table ≤ HashOracle.sha256 := by
    intro m d h
    simp only [table, HashOracle.ofTranscript, HashOracle.ofQueries,
      Option.ite_none_right_eq_some] at h
    exact h.2
  have hkeyword : ∀ {v : Clvm} {d : Bytes}, Skeleton.ofClvm v ∈ skeletons →
      HashOracle.sha256.treeHash v = some d → table.treeHash v = some d := by
    intro v d hv h
    have htable := treeHash_eq hv
    rw [htable, ← HashOracle.treeHash_mono hle htable, h]
  have h := Chialisp.sha256_curryConstants
  exact ⟨hkeyword (v := .nil) (by simp [skeletons]) h.one,
    hkeyword (v := .atom [1]) (by simp [skeletons]) h.one_one,
    hkeyword (v := .atom [2]) (by simp [skeletons]) h.one_a_kw,
    hkeyword (v := .atom [4]) (by simp [skeletons]) h.one_c_kw⟩

/-! What is computed with the table. -/

theorem self_curry : table.curryTreeHash (.atom (treeHash verificationProgram))
    [.atom (treeHash revocation)] = some selfHash :=
  @curryTreeHash_eq (treeHash verificationProgram) [treeHash revocation] (by simp [skeletons])

theorem inner_curry : table.curryTreeHash (.atom selfHash)
    [.atom (treeHash (.atom selfHash)), .atom (treeHash data)] = some innerHash :=
  @curryTreeHash_eq selfHash [treeHash (.atom selfHash), treeHash data] (by simp [skeletons])

theorem verifier_curry : table.curryTreeHash (.atom topLayer.modHash)
    [.atom verifierStructHash, .atom (treeHash issuer)] = some verifierPuzzleHash :=
  @curryTreeHash_eq topLayer.modHash [verifierStructHash, treeHash issuer] (by simp [skeletons])

theorem puzzle_curry : table.curryTreeHash (.atom topLayer.modHash)
    [.atom structHash, .atom innerHash] = some puzzleHash :=
  @curryTreeHash_eq topLayer.modHash [structHash, innerHash] (by simp [skeletons])

theorem self_eq : table.treeHash (curry verificationProgram [revocation]) = some selfHash :=
  HashOracle.treeHash_curry (treeHash_eq (by simp [skeletons]))
    (.cons ⟨_, rfl, treeHash_eq (by simp [skeletons])⟩ .nil) self_curry

theorem inner_eq : table.treeHash (puzzle verificationProgram curried) = some innerHash :=
  HashOracle.treeHash_curry self_eq (.cons ⟨_, rfl, treeHash_eq (by simp [skeletons, curried])⟩
    (.cons ⟨_, rfl, treeHash_eq (by simp [skeletons, curried])⟩ .nil)) inner_curry

theorem verifier_eq : table.treeHash (topLayer.puzzle verifierLauncherId issuer)
    = some verifierPuzzleHash :=
  HashOracle.treeHash_curry (treeHash_eq (by simp [skeletons, topLayer]))
    (.cons ⟨_, rfl, treeHash_eq (by simp [skeletons])⟩
      (.cons ⟨_, rfl, treeHash_eq (by simp [skeletons])⟩ .nil)) verifier_curry

theorem puzzle_eq : table.treeHash (topLayer.puzzle launcherId (puzzle verificationProgram curried))
    = some puzzleHash :=
  HashOracle.treeHash_curry (treeHash_eq (by simp [skeletons, topLayer]))
    (.cons ⟨_, rfl, treeHash_eq (by simp [skeletons])⟩ (.cons ⟨_, rfl, inner_eq⟩ .nil)) puzzle_curry

theorem verifierLauncher_id : verifierLauncher.id table = some verifierLauncherId :=
  HashOracle.coinid_eq_some.2 ⟨reward, topLayer.launcherPuzzleHash, [1], rfl, rfl, rfl, rfl,
    Sha256.length_hash _, rfl, digest_eq (by simp [messages, verifierLauncherMessage])⟩

theorem verifier_id : verifier.id table = some verifierId :=
  HashOracle.coinid_eq_some.2 ⟨verifierLauncherId, verifierPuzzleHash, [1], rfl, rfl, rfl,
    Sha256.length_hash _, Sha256.length_hash _, rfl, digest_eq (by simp [messages, verifierMessage])⟩

theorem launcher_id : launcher.id table = some launcherId :=
  HashOracle.coinid_eq_some.2 ⟨verifierId, topLayer.launcherPuzzleHash, [], rfl, rfl, rfl,
    Sha256.length_hash _, Sha256.length_hash _, rfl, digest_eq (by simp [messages, launcherMessage])⟩

theorem id_ne_reward {coin : Coin} {id : Bytes} (h : coin.id table = some id) : id ≠ reward := by
  obtain ⟨p, ph, a, -, -, -, -, -, -, hdigest⟩ := HashOracle.coinid_eq_some.1 h
  simp only [table, HashOracle.ofTranscript, HashOracle.ofQueries,
    Option.ite_none_right_eq_some, Option.some.injEq] at hdigest
  obtain ⟨hmem, rfl⟩ := hdigest
  intro heq
  refine reward_ne (HashOracle.number (Sha256.hash (p ++ ph ++ a)), HashOracle.number (p ++ ph ++ a))
    ?_ (congrArg HashOracle.number heq)
  rcases List.mem_append.1 hmem with hmem | hmem
  · obtain ⟨t, ht, hq⟩ := List.mem_flatMap.1 hmem
    refine List.mem_append_left _ (List.mem_flatMap.2 ⟨t, ht, ?_⟩)
    rw [← Skeleton.entries_queries]
    exact List.mem_map_of_mem hq
  · exact List.mem_append_right _ (List.mem_map_of_mem hmem)

/-! The machine runs what the offer needs. -/

def makerCurried : CatalogVerificationMaker.Curried :=
  ⟨.atom selfHash, .atom request.version, .atom (treeHash (.atom request.assetId)),
    .atom (treeHash (.atom request.dataHash))⟩

def makerSolution : Clvm := .ofList [.atom comment]

def innerSolution : Clvm := .ofList [.nil]

def innerConditions : List Condition :=
  [.createPuzzleAnnouncement .nil, .createCoin (.atom innerHash) (.ofInt 1) []]

def reveal : Clvm := topLayer.puzzle launcherId (puzzle verificationProgram curried)

def spendSolution : Clvm :=
  .ofList [.ofList [.atom verifierId, .nil], .ofInt 1, innerSolution]

def spendConditions : List Condition :=
  [.assertMyAmount (.ofInt 1), .assertMyParentId (.atom launcherId),
    .createPuzzleAnnouncement .nil, .createCoin (.atom puzzleHash) (.ofInt 1) []]

def eval (program solution : Clvm) : Option Clvm :=
  if program = curry makerProgram makerCurried.toList ∧ solution = makerSolution then
    some (.atom innerHash)
  else if program = puzzle verificationProgram curried ∧ solution = innerSolution then
    some (encode innerConditions)
  else if program = reveal ∧ solution = spendSolution then
    some (encode spendConditions)
  else
    none

def machine : Machine := ⟨table, eval⟩

theorem eval_cases {program solution out : Clvm} (h : eval program solution = some out) :
    (program = curry makerProgram makerCurried.toList ∧ solution = makerSolution ∧
      out = .atom innerHash) ∨
    (program = puzzle verificationProgram curried ∧ solution = innerSolution ∧
      out = encode innerConditions) ∨
    (program = reveal ∧ solution = spendSolution ∧ out = encode spendConditions) := by
  unfold eval at h
  split at h
  · rename_i hmaker
    exact .inl ⟨hmaker.1, hmaker.2, (Option.some.inj h).symm⟩
  · split at h
    · rename_i hinner
      exact .inr (.inl ⟨hinner.1, hinner.2, (Option.some.inj h).symm⟩)
    · split at h
      · rename_i hspend
        exact .inr (.inr ⟨hspend.1, hspend.2, (Option.some.inj h).symm⟩)
      · cases h

theorem maker_eq : CatalogVerificationMaker.main table makerCurried makerSolution
    = some innerHash := by
  obtain ⟨version, afterVersion, hversion, hafter, hdata⟩ := HashOracle.treeHash_pair_eq_some.1
    (@treeHash_eq data (by simp [skeletons]))
  obtain ⟨assetId, dataAndComment, hassetId, hcomment, hafter⟩ :=
    HashOracle.treeHash_pair_eq_some.1 hafter
  obtain ⟨dataHash, commentHash, hdataHash, hcommentHash, hcomment⟩ :=
    HashOracle.treeHash_pair_eq_some.1 hcomment
  have hsameId : treeHash (.atom request.assetId) = assetId := Option.some.inj
    ((@treeHash_eq (.atom request.assetId) (by simp [skeletons])).symm.trans hassetId)
  have hsameHash : treeHash (.atom request.dataHash) = dataHash := Option.some.inj
    ((@treeHash_eq (.atom request.dataHash) (by simp [skeletons])).symm.trans hdataHash)
  have hself : table.treeHash (.atom selfHash) = some (treeHash (.atom selfHash)) :=
    treeHash_eq (by simp [skeletons])
  have hcurry := inner_curry
  rw [← Chialisp.curryHashes_eq table_curryConstants] at hcurry
  rw [← hsameHash] at hcomment
  rw [← hsameId] at hafter
  exact bind_intro rfl (bind_intro hself (bind_intro hversion (bind_intro hcommentHash
    (bind_intro hcomment (bind_intro hafter (bind_intro hdata hcurry))))))

theorem inner_main : main table curried innerSolution = some innerConditions := by
  have hself : table.treeHash (.atom selfHash) = some (treeHash (.atom selfHash)) :=
    treeHash_eq (by simp [skeletons])
  have hdata : table.treeHash data = some (treeHash data) := treeHash_eq (by simp [skeletons])
  have hcurry := inner_curry
  rw [← Chialisp.curryHashes_eq table_curryConstants] at hcurry
  exact bind_intro rfl (bind_intro rfl (bind_intro hself (bind_intro hdata
    (bind_intro hcurry rfl))))

theorem lawful : programs.Lawful machine where
  topLayer := {
    treeHash_program := treeHash_eq (by simp [skeletons, programs, topLayer])
    announces := by
      intro id message inner solution conditions hrun hannounces
      have heval : eval (topLayer.puzzle id inner) solution = some conditions := hrun
      rcases eval_cases heval with ⟨hp, -, -⟩ | ⟨hp, -, -⟩ | ⟨hp, hs, hout⟩
      · cases (curry_inj.1 hp).1
      · cases (curry_inj.1 hp).1
      · have harguments := (curry_inj.1 hp).2
        simp only [List.cons.injEq, and_true] at harguments
        subst hs hout
        rw [announces_encode] at hannounces
        have hmessage : message = [] := by
          simpa [spendConditions, Clvm.nil] using hannounces
        rw [harguments.2, hmessage]
        refine ⟨_, _, innerSolution, _, encode innerConditions, rfl, ?_, ?_⟩
        · show eval (puzzle verificationProgram curried) innerSolution = _
          unfold eval
          rw [if_neg, if_pos ⟨rfl, rfl⟩]
          rintro ⟨hmaker, -⟩
          cases (curry_inj.1 hmaker).1
        · rw [announces_encode]
          exact List.mem_cons_self .. }
  verification := by
    intro c solution out hrun
    have heval : eval (puzzle verificationProgram c) solution = some out := hrun
    rcases eval_cases heval with ⟨hp, -, -⟩ | ⟨hp, hs, hout⟩ | ⟨hp, -, -⟩
    · cases (curry_inj.1 hp).1
    · obtain ⟨hfirst, hsecond⟩ := curry_inj.1 hp
      have hstruct := (curry_inj.1 hfirst).2
      simp only [List.cons.injEq, and_true] at hstruct hsecond
      have hc : c = curried := by
        cases c
        simp_all [curried]
      rw [hc, hs, hout]
      exact congrArg (Option.map encode) inner_main
    · cases (curry_inj.1 hp).1
  catalogVerificationMaker := by
    intro c solution out hrun
    have heval : eval (curry makerProgram c.toList) solution = some out := hrun
    rcases eval_cases heval with ⟨hp, hs, hout⟩ | ⟨hp, -, -⟩ | ⟨hp, -, -⟩
    · have harguments := (curry_inj.1 hp).2
      simp only [CatalogVerificationMaker.Curried.toList, List.cons.injEq, and_true] at harguments
      have hc : c = makerCurried := by
        cases c
        simp_all
      rw [hc, hs, hout]
      exact congrArg (Option.map Clvm.atom) maker_eq
    · cases (curry_inj.1 hp).1
    · cases (curry_inj.1 hp).1

/-! The chain, up to the spend of the verification. -/

def spends : List CoinSpend :=
  [⟨verifierLauncher, launcherProgram, .nil⟩,
    ⟨verifier, topLayer.puzzle verifierLauncherId issuer, .nil⟩,
    ⟨launcher, launcherProgram, .nil⟩, ⟨verification, reveal, spendSolution⟩]

def chain : Chain machine where
  spends := spends
  rewards := [reward]
  reveal := by
    have hlauncher : table.treeHash launcherProgram = some (treeHash launcherProgram) :=
      treeHash_eq (by simp [skeletons])
    intro s hs
    simp only [spends, List.mem_cons, List.not_mem_nil, or_false] at hs
    rcases hs with rfl | rfl | rfl | rfl
    · exact hlauncher
    · exact verifier_eq
    · exact hlauncher
    · exact puzzle_eq
  created := by
    intro s hs
    simp only [spends, List.mem_cons, List.not_mem_nil, or_false] at hs
    rcases hs with rfl | rfl | rfl | rfl
    · exact .inl (List.mem_singleton_self _)
    · exact .inr ⟨_, List.mem_cons_self .., verifierLauncher_id⟩
    · exact .inr ⟨_, List.mem_cons_of_mem _ (List.mem_cons_self ..), verifier_id⟩
    · exact .inr ⟨_, List.mem_cons_of_mem _ (List.mem_cons_of_mem _ (List.mem_cons_self ..)),
        launcher_id⟩
  reward_ne := by
    intro coin id h hmem
    exact id_ne_reward h (List.mem_singleton.1 hmem)

theorem genuine : ∀ spend ∈ chain.spends, ∀ id inner,
    spend.puzzleReveal = programs.topLayer.puzzle id inner →
    programs.topLayer.Genuine machine chain.spends id spend.coin := by
  have hid : ∀ {a b : Bytes} {v w : Clvm}, topLayer.puzzle a v = topLayer.puzzle b w → a = b := by
    intro a b v w h
    have harguments := (curry_inj.1 h).2
    simp only [List.cons.injEq, SingletonTopLayer.struct, Clvm.pair.injEq, Clvm.atom.injEq,
      true_and, and_true] at harguments
    exact harguments.1
  intro s hs id inner hpuzzle
  replace hs : s ∈ spends := hs
  simp only [spends, List.mem_cons, List.not_mem_nil, or_false] at hs
  rcases hs with rfl | rfl | rfl | rfl
  · cases hpuzzle
  · obtain rfl := hid hpuzzle
    exact .eve (List.mem_cons_self ..) verifierLauncher_id rfl ⟨rfl, issuer, verifier_eq⟩ rfl
  · cases hpuzzle
  · obtain rfl := hid hpuzzle
    exact .eve (List.mem_cons_of_mem _ (List.mem_cons_of_mem _ (List.mem_cons_self ..)))
      launcher_id rfl ⟨rfl, _, puzzle_eq⟩ rfl

/-! The asserter. -/

def asserter : VerificationAsserter.Curried :=
  ⟨.atom topLayer.modHash, .atom topLayer.launcherPuzzleHash, .atom verifierStructHash,
    curry makerProgram makerCurried.toList⟩

theorem asserter_eq : programs.asserter machine request = some asserter := by
  have hstruct : table.treeHash (topLayer.struct verifierLauncherId) = some verifierStructHash :=
    treeHash_eq (by simp [skeletons])
  have hassetId : table.treeHash (.atom request.assetId)
      = some (treeHash (.atom request.assetId)) := treeHash_eq (by simp [skeletons])
  have hdataHash : table.treeHash (.atom request.dataHash)
      = some (treeHash (.atom request.dataHash)) := treeHash_eq (by simp [skeletons])
  exact bind_intro hstruct (bind_intro self_eq (bind_intro hassetId (bind_intro hdataHash rfl)))

def asserterSolution : Clvm :=
  .pair (.ofList [.atom verifierLauncherId, .atom (treeHash issuer), .ofInt 1])
    (.pair makerSolution .nil)

def announcement : Bytes := Sha256.hash (puzzleHash ++ [])

theorem asserter_main : VerificationAsserter.main machine asserter asserterSolution
    = some [.assertPuzzleAnnouncement (.atom announcement)] := by
  have hmod : table.treeHash topProgram = some topLayer.modHash :=
    treeHash_eq (by simp [skeletons])
  obtain ⟨modHashHash, rest, hmodHash, hrest, hstruct⟩ := HashOracle.treeHash_pair_eq_some.1
    (@treeHash_eq (topLayer.struct launcherId) (by simp [skeletons]))
  obtain ⟨idHash, phHash, hidHash, hphHash, hrest⟩ := HashOracle.treeHash_pair_eq_some.1 hrest
  have hverifier := verifier_curry
  have hpuzzle := puzzle_curry
  rw [← Chialisp.curryHashes_eq table_curryConstants] at hverifier hpuzzle
  have hmaker : eval (curry makerProgram makerCurried.toList) makerSolution
      = some (.atom innerHash) := if_pos ⟨rfl, rfl⟩
  have hannouncement : table.hashAtoms [.atom puzzleHash, .nil] = some announcement :=
    HashOracle.hashAtoms_eq_some.2 ⟨puzzleHash ++ [], by simp [concatAtoms, Clvm.bytes?, Clvm.nil],
      digest_eq (by simp [messages])⟩
  exact bind_intro rfl (bind_intro rfl (bind_intro rfl (bind_intro rfl (bind_intro rfl
    (bind_intro hmodHash (bind_intro hverifier (bind_intro verifier_id (bind_intro launcher_id
      (bind_intro hidHash (bind_intro hphHash (bind_intro hrest (bind_intro hstruct
        (bind_intro hmaker (bind_intro hpuzzle (bind_intro hannouncement rfl)))))))))))))))

def block : List CoinSpend := [⟨verification, reveal, spendSolution⟩]

theorem announced : Announced machine block announcement := by
  refine ⟨_, List.mem_singleton_self _, encode spendConditions, [], ?_, ?_, ?_⟩
  · show eval reveal spendSolution = _
    unfold eval
    rw [if_neg, if_neg, if_pos ⟨rfl, rfl⟩]
    · rintro ⟨hinner, -⟩
      cases (curry_inj.1 hinner).1
    · rintro ⟨hmaker, -⟩
      cases (curry_inj.1 hmaker).1
  · rw [announces_encode]
    exact List.mem_cons_of_mem _ (List.mem_cons_of_mem _ (List.mem_cons_self ..))
  · exact digest_eq (by simp [messages, verification])

end OfferExample

open OfferExample in
/-- An offer that is taken: the one spend of the block endorses what was asked for. -/
theorem verification_offer_sound_taken :
    ∃ spend ∈ block, Endorses programs machine chain.spends request spend := by
  obtain ⟨id, hconditions, -, hsound⟩ := verification_offer_sound machine table_collisionFree
    table_curryConstants programs lawful chain genuine block
    (fun _ h => List.mem_cons_of_mem _ (List.mem_cons_of_mem _ (List.mem_cons_of_mem _ h)))
    request asserter asserter_eq asserterSolution _ asserter_main
  have hid : id = announcement := by
    simpa using hconditions.symm
  rw [hid] at hsound
  exact hsound announced

end SlotMachine.Verification
