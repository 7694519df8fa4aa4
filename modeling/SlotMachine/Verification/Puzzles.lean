import SlotMachine.Chain.Lineage
import SlotMachine.Chialisp.Include

/-!
# Verifications

A verifier endorses the data of a CAT with a verification: a singleton that holds the data
and announces itself when it is spent in oracle mode.  An issuer that wants one offers a
coin with the asserter, which waits for the announcement.

* `Verification.main`, `CatalogVerificationMaker.main`, `VerificationAsserter.main` — the
  three puzzles, as they stand under `puzzles/verification`.
* `Verification.oracle_of_announces` — **only the oracle branch announces**, and
  `Verification.oracle_recreates` says that it makes the coin anew with the same puzzle.
* `CatalogVerificationMaker.exists_verifiedData` — the maker computes the hash of that puzzle.
* `VerificationAsserter.exists_assertion` — what the asserter waits for.
-/

namespace SlotMachine

open Clvm Lineage

/-! ## `verification.clsp` -/

namespace Verification

/-- The arguments of `verification.clsp`, which are curried in two steps. -/
structure Curried where
  revocationSingletonStruct : Clvm
  selfHash : Clvm
  verifiedData : Clvm

/-- `verification.clsp`. -/
def main (H : HashOracle) (c : Curried) (solution : Clvm) : Option (List Condition) := do
  let revocationSingletonInnerPuzzleHash ← solution.first
  if ← revocationSingletonInnerPuzzleHash.eq .nil then
    -- oracle mode
    let selfHashHash ← H.hashAtoms [.atom [1], c.selfHash]
    let verifiedDataHash ← H.treeHash c.verifiedData
    let puzzleHash ←
      Chialisp.curryHashes H c.selfHash [.atom selfHashHash, .atom verifiedDataHash]
    return [.createPuzzleAnnouncement .nil, .createCoin (.atom puzzleHash) (.ofInt 1) []]
  else
    -- melt, with the consent of the revocation singleton
    let modHash ← c.revocationSingletonStruct.first
    let structHash ← H.treeHash c.revocationSingletonStruct
    let puzzleHash ←
      Chialisp.curryHashes H modHash [.atom structHash, revocationSingletonInnerPuzzleHash]
    return [.createCoin .nil (.ofInt (-113)) [],
      .receiveMessage puzzlePuzzle .nil [.atom puzzleHash]]

/-- The puzzle: the program, curried twice. -/
def puzzle (program : Clvm) (c : Curried) : Clvm :=
  curry (curry program [c.revocationSingletonStruct]) [c.selfHash, c.verifiedData]

variable {H : HashOracle} {c : Curried} {solution : Clvm} {conditions : List Condition}

/-- **Only the oracle branch announces.** -/
theorem oracle_of_announces (h : main H c solution = some conditions) {message : Clvm}
    (hmessage : .createPuzzleAnnouncement message ∈ conditions) :
    solution.first = some .nil ∧ message = .nil := by
  obtain ⟨revocation, hfirst, h⟩ := bind_elim h
  obtain ⟨oracle, heq, h⟩ := bind_elim h
  cases oracle with
  | true =>
    obtain ⟨b, rfl, hnil⟩ := Clvm.eq_eq_some_true.1 heq
    obtain rfl : [] = b := Clvm.atom.inj hnil
    obtain ⟨_, -, h⟩ := bind_elim h
    obtain ⟨_, -, h⟩ := bind_elim h
    obtain ⟨_, -, h⟩ := bind_elim h
    obtain rfl := Option.some.inj h
    exact ⟨hfirst, by simpa using hmessage⟩
  | false =>
    obtain ⟨_, -, h⟩ := bind_elim h
    obtain ⟨_, -, h⟩ := bind_elim h
    obtain ⟨_, -, h⟩ := bind_elim h
    obtain rfl := Option.some.inj h
    simp at hmessage

/-- **The oracle branch makes the coin anew**: it announces nil, and creates a coin of the
same puzzle, if the hash curried into the puzzle is its own. -/
theorem oracle_recreates (hC : Chialisp.CurryConstants H) {program : Clvm} {selfHash : Bytes}
    (hself : H.treeHash (curry program [c.revocationSingletonStruct]) = some selfHash)
    (hcurried : c.selfHash = .atom selfHash) (horacle : solution.first = some .nil)
    (h : main H c solution = some conditions) :
    ∃ puzzleHash, H.treeHash (puzzle program c) = some puzzleHash ∧
      conditions = [.createPuzzleAnnouncement .nil, .createCoin (.atom puzzleHash) (.ofInt 1) []] := by
  obtain ⟨revocation, hfirst, h⟩ := bind_elim h
  obtain rfl : .nil = revocation := Option.some.inj (horacle.symm.trans hfirst)
  obtain ⟨oracle, heq, h⟩ := bind_elim h
  obtain rfl : true = oracle := Option.some.inj heq
  obtain ⟨selfHashHash, hselfHash, h⟩ := bind_elim h
  obtain ⟨verifiedDataHash, hdata, h⟩ := bind_elim h
  obtain ⟨puzzleHash, hpuzzle, h⟩ := bind_elim h
  rw [hcurried] at hselfHash hpuzzle
  rw [Chialisp.curryHashes_eq hC] at hpuzzle
  refine ⟨puzzleHash, ?_, (Option.some.inj h).symm⟩
  unfold puzzle
  rw [hcurried]
  refine HashOracle.treeHash_curry hself ?_ hpuzzle
  exact .cons ⟨selfHashHash, rfl, hselfHash⟩ (.cons ⟨verifiedDataHash, rfl, hdata⟩ .nil)

end Verification

/-! ## `catalog_verification_maker.clsp` -/

/-- The data of a verification: `(VERSION . (ASSET_ID . (DATA_HASH . comment)))`. -/
def verifiedData (version assetId dataHash comment : Bytes) : Clvm :=
  .pair (.atom version) (.pair (.atom assetId) (.pair (.atom dataHash) (.atom comment)))

namespace CatalogVerificationMaker

/-- The arguments of `catalog_verification_maker.clsp`. -/
structure Curried where
  verificationInnerPuzzleSelfHash : Clvm
  version : Clvm
  assetIdHash : Clvm
  dataHashHash : Clvm

/-- The arguments as a list. -/
def Curried.toList (c : Curried) : List Clvm :=
  [c.verificationInnerPuzzleSelfHash, c.version, c.assetIdHash, c.dataHashHash]

/-- `catalog_verification_maker.clsp`. -/
def main (H : HashOracle) (c : Curried) (solution : Clvm) : Option Bytes := do
  let comment ← solution.first
  let selfHashHash ← H.hashAtoms [.atom [1], c.verificationInnerPuzzleSelfHash]
  let versionHash ← H.hashAtoms [.atom [1], c.version]
  let commentHash ← H.hashAtoms [.atom [1], comment]
  let dataAndComment ← H.hashAtoms [.atom [2], c.dataHashHash, .atom commentHash]
  let afterVersion ← H.hashAtoms [.atom [2], c.assetIdHash, .atom dataAndComment]
  let verifiedDataHash ← H.hashAtoms [.atom [2], .atom versionHash, .atom afterVersion]
  Chialisp.curryHashes H c.verificationInnerPuzzleSelfHash
    [.atom selfHashHash, .atom verifiedDataHash]

variable {H : HashOracle} {selfHash version assetId dataHash assetIdHash dataHashHash : Bytes}

/-- **The maker computes the hash of the verification puzzle** for the locked data and a
comment of the verifier's. -/
theorem exists_verifiedData (hC : Chialisp.CurryConstants H)
    (hassetId : H.treeHashAtom (.atom assetId) = some assetIdHash)
    (hdataHash : H.treeHashAtom (.atom dataHash) = some dataHashHash) {solution : Clvm}
    {inner : Bytes}
    (h : main H ⟨.atom selfHash, .atom version, .atom assetIdHash, .atom dataHashHash⟩ solution
      = some inner) :
    ∃ comment selfHashHash verifiedDataHash, solution.first = some (.atom comment) ∧
      H.treeHash (.atom selfHash) = some selfHashHash ∧
      H.treeHash (verifiedData version assetId dataHash comment) = some verifiedDataHash ∧
      H.curryTreeHash (.atom selfHash) [.atom selfHashHash, .atom verifiedDataHash]
        = some inner := by
  obtain ⟨comment, hfirst, h⟩ := bind_elim h
  obtain ⟨selfHashHash, hself, h⟩ := bind_elim h
  obtain ⟨versionHash, hversion, h⟩ := bind_elim h
  obtain ⟨commentHash, hcomment, h⟩ := bind_elim h
  obtain ⟨dataAndComment, hdata, h⟩ := bind_elim h
  obtain ⟨afterVersion, hafter, h⟩ := bind_elim h
  obtain ⟨verifiedDataHash, hverified, hinner⟩ := bind_elim h
  obtain ⟨b, rfl, -⟩ := HashOracle.treeHashAtom_eq_some.1 hcomment
  rw [Chialisp.curryHashes_eq hC] at hinner
  have hlast : H.treeHash (.pair (.atom dataHash) (.atom b)) = some dataAndComment :=
    HashOracle.treeHash_pair_eq_some.2 ⟨_, _, hdataHash, hcomment, hdata⟩
  have htail : H.treeHash (.pair (.atom assetId) (.pair (.atom dataHash) (.atom b)))
      = some afterVersion :=
    HashOracle.treeHash_pair_eq_some.2 ⟨_, _, hassetId, hlast, hafter⟩
  have hwhole : H.treeHash (verifiedData version assetId dataHash b) = some verifiedDataHash :=
    HashOracle.treeHash_pair_eq_some.2 ⟨_, _, hversion, htail, hverified⟩
  exact ⟨b, selfHashHash, verifiedDataHash, hfirst, hself, hwhole, hinner⟩

end CatalogVerificationMaker

/-! ## `verification_asserter.clsp` -/

namespace VerificationAsserter

/-- The arguments of `verification_asserter.clsp`. -/
structure Curried where
  singletonModHash : Clvm
  launcherPuzzleHash : Clvm
  verifierSingletonStructHash : Clvm
  verificationInnerPuzzleMaker : Clvm

/-- `verification_asserter.clsp`. -/
def main (M : Machine) (c : Curried) (solution : Clvm) : Option (List Condition) := do
  let (verifierProof, solution) ← solution.uncons
  let (verifierParentInfo, verifierProof) ← verifierProof.uncons
  let (verifierInnerPuzzleHash, verifierProof) ← verifierProof.uncons
  let verifierAmount ← verifierProof.first
  let (verificationInnerPuzzleMakerSolution, launcherAmount) ← solution.uncons
  let modHashHash ← M.hash.hashAtoms [.atom [1], c.singletonModHash]
  let verifierPuzzleHash ← Chialisp.curryHashes M.hash c.singletonModHash
    [c.verifierSingletonStructHash, verifierInnerPuzzleHash]
  let verifierId ← M.hash.coinid verifierParentInfo (.atom verifierPuzzleHash) verifierAmount
  let launcherId ← M.hash.coinid (.atom verifierId) c.launcherPuzzleHash launcherAmount
  let launcherIdHash ← M.hash.hashAtoms [.atom [1], .atom launcherId]
  let launcherPuzzleHashHash ← M.hash.hashAtoms [.atom [1], c.launcherPuzzleHash]
  let launcher ←
    M.hash.hashAtoms [.atom [2], .atom launcherIdHash, .atom launcherPuzzleHashHash]
  let structHash ← M.hash.hashAtoms [.atom [2], .atom modHashHash, .atom launcher]
  let innerPuzzleHash ← M.eval c.verificationInnerPuzzleMaker verificationInnerPuzzleMakerSolution
  let puzzleHash ← Chialisp.curryHashes M.hash c.singletonModHash
    [.atom structHash, innerPuzzleHash]
  let announcement ← M.hash.hashAtoms [.atom puzzleHash, .nil]
  return [.assertPuzzleAnnouncement (.atom announcement)]

/-- What an asserter computes from its solution. -/
structure Assertion (M : Machine) (modHash launcherPuzzleHash structHash : Bytes) (maker : Clvm)
    (announcement : Bytes) where
  verifierParentInfo : Clvm
  verifierInnerPuzzleHash : Clvm
  verifierAmount : Clvm
  makerSolution : Clvm
  launcherAmount : Clvm
  verifierPuzzleHash : Bytes
  verifierId : Bytes
  launcherId : Bytes
  verificationStructHash : Bytes
  innerPuzzleHash : Clvm
  puzzleHash : Bytes
  verifierPuzzleHash_eq : M.hash.curryTreeHash (.atom modHash)
    [.atom structHash, verifierInnerPuzzleHash] = some verifierPuzzleHash
  verifierId_eq : M.hash.coinid verifierParentInfo (.atom verifierPuzzleHash) verifierAmount
    = some verifierId
  launcherId_eq : M.hash.coinid (.atom verifierId) (.atom launcherPuzzleHash) launcherAmount
    = some launcherId
  struct_eq : M.hash.treeHash (.pair (.atom modHash)
    (.pair (.atom launcherId) (.atom launcherPuzzleHash))) = some verificationStructHash
  innerPuzzleHash_eq : M.eval maker makerSolution = some innerPuzzleHash
  puzzleHash_eq : M.hash.curryTreeHash (.atom modHash)
    [.atom verificationStructHash, innerPuzzleHash] = some puzzleHash
  announcement_eq : M.hash.digest puzzleHash = some announcement

variable {M : Machine} {modHash launcherPuzzleHash structHash : Bytes} {maker : Clvm}

/-- **What the asserter waits for**: one announcement, of the verification singleton whose
launcher is a child of the verifier singleton. -/
theorem exists_assertion (hC : Chialisp.CurryConstants M.hash) {solution : Clvm}
    {conditions : List Condition}
    (h : main M ⟨.atom modHash, .atom launcherPuzzleHash, .atom structHash, maker⟩ solution
      = some conditions) :
    ∃ announcement, conditions = [.assertPuzzleAnnouncement (.atom announcement)] ∧
      Nonempty (Assertion M modHash launcherPuzzleHash structHash maker announcement) := by
  obtain ⟨⟨_, _⟩, -, h⟩ := bind_elim h
  obtain ⟨⟨verifierParentInfo, _⟩, -, h⟩ := bind_elim h
  obtain ⟨⟨verifierInnerPuzzleHash, _⟩, -, h⟩ := bind_elim h
  obtain ⟨verifierAmount, -, h⟩ := bind_elim h
  obtain ⟨⟨makerSolution, launcherAmount⟩, -, h⟩ := bind_elim h
  obtain ⟨modHashHash, hmod, h⟩ := bind_elim h
  obtain ⟨verifierPuzzleHash, hverifier, h⟩ := bind_elim h
  obtain ⟨verifierId, hverifierId, h⟩ := bind_elim h
  obtain ⟨launcherId, hlauncherId, h⟩ := bind_elim h
  obtain ⟨launcherIdHash, hidHash, h⟩ := bind_elim h
  obtain ⟨launcherPuzzleHashHash, hphHash, h⟩ := bind_elim h
  obtain ⟨launcher, hlauncher, h⟩ := bind_elim h
  obtain ⟨verificationStructHash, hstruct, h⟩ := bind_elim h
  obtain ⟨innerPuzzleHash, hinner, h⟩ := bind_elim h
  obtain ⟨puzzleHash, hpuzzle, h⟩ := bind_elim h
  obtain ⟨announcement, hannouncement, h⟩ := bind_elim h
  rw [Chialisp.curryHashes_eq hC] at hverifier hpuzzle
  refine ⟨announcement, (Option.some.inj h).symm, ⟨{
    verifierParentInfo, verifierInnerPuzzleHash, verifierAmount, makerSolution, launcherAmount
    verifierPuzzleHash, verifierId, launcherId, verificationStructHash, innerPuzzleHash
    puzzleHash
    verifierPuzzleHash_eq := hverifier
    verifierId_eq := hverifierId
    launcherId_eq := hlauncherId
    struct_eq := ?_
    innerPuzzleHash_eq := hinner
    puzzleHash_eq := hpuzzle
    announcement_eq := ?_ }⟩⟩
  · have hpair : M.hash.treeHash (.pair (.atom launcherId) (.atom launcherPuzzleHash))
        = some launcher :=
      HashOracle.treeHash_pair_eq_some.2 ⟨_, _, hidHash, hphHash, hlauncher⟩
    exact HashOracle.treeHash_pair_eq_some.2 ⟨_, _, hmod, hpair, hstruct⟩
  · obtain ⟨m, hm, hdigest⟩ := HashOracle.hashAtoms_eq_some.1 hannouncement
    have hempty : concatAtoms [.atom puzzleHash, .nil] = some puzzleHash := by
      simp [concatAtoms, Clvm.bytes?, Clvm.nil]
    rw [hempty] at hm
    rw [Option.some.inj hm]
    exact hdigest

end VerificationAsserter

end SlotMachine
