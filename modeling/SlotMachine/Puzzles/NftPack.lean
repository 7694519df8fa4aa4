import SlotMachine.Puzzles.Slot

/-!
# The NFT of a registration

CATalog makes an NFT for every TAIL.  The registry creates the uniqueness
prelauncher, a coin that names the TAIL; this coin creates a launcher; and the
launcher creates the first NFT coin, whose spend the registry asserts
(`nft_pack.rue`, `uniqueness_prelauncher.rue`).

* `nftPuzzleHash`, `secureNft` — the first NFT coin of a launcher, and the
  assertion of its spend.
* `uniquenessPrelauncherPuzzleHash`, `uniquenessPrelauncherMain` — the prelauncher.
* `Launches` — the chain of coins from a registry coin to the NFT;
  `Launches.unique` — **the id of the NFT coin determines the whole chain**: the
  registry coin, the value of the prelauncher and the owner.
-/

namespace SlotMachine

/-- `NftPack`. -/
structure NftPack where
  launcherModHash : Bytes
  singletonModHash : Bytes
  nftStateLayerModHash : Bytes
  metadataUpdaterHashHash : Bytes
  nftOwnershipModHash : Bytes
  transferProgramModHash : Bytes
  royaltyAddressHash : Bytes
  tradePricePercentage : Bytes

namespace HashOracle

variable (H : HashOracle)

/-- The puzzle hash of the first coin of an NFT: `full_puzzle_hash` in `secure_nft`. -/
def nftPuzzleHash (P : NftPack) (innerPuzzleHash : Clvm) (launcherId : Bytes) : Option Bytes := do
  let struct ← H.singletonStructHash P.singletonModHash P.launcherModHash (.atom launcherId)
  let ownershipMod ← H.treeHashAtom (.atom P.nftOwnershipModHash)
  let nothing ← H.treeHashAtom .nil
  let percentage ← H.treeHashAtom (.atom P.tradePricePercentage)
  let transferProgram ← H.curryTreeHash (.atom P.transferProgramModHash)
    [.atom struct, .atom P.royaltyAddressHash, .atom percentage]
  let ownershipLayer ← H.curryTreeHash (.atom P.nftOwnershipModHash)
    [.atom ownershipMod, .atom nothing, .atom transferProgram, innerPuzzleHash]
  let stateLayerMod ← H.treeHashAtom (.atom P.nftStateLayerModHash)
  let singletonInner ← H.curryTreeHash (.atom P.nftStateLayerModHash)
    [.atom stateLayerMod, .atom nothing, .atom P.metadataUpdaterHashHash, .atom ownershipLayer]
  H.curryTreeHash (.atom P.singletonModHash) [.atom struct, .atom singletonInner]

/-- The id of the first coin of an NFT. -/
def nftCoinId (P : NftPack) (innerPuzzleHash : Clvm) (launcherId : Bytes) : Option Bytes := do
  let full ← H.nftPuzzleHash P innerPuzzleHash launcherId
  H.coinid (.atom launcherId) (.atom full) (.atom [1])

/-- `secure_nft`. -/
def secureNft (P : NftPack) (innerPuzzleHash : Clvm) (launcherId : Bytes) : Option Condition := do
  let id ← H.nftCoinId P innerPuzzleHash launcherId
  return .assertConcurrentSpend (.atom id)

/-- The puzzle hash of the uniqueness prelauncher of a value. -/
def uniquenessPrelauncherPuzzleHash (prelauncher1stCurryHash : Bytes) (value : Clvm) :
    Option Bytes := do
  let v ← H.treeHashAtom value
  H.curryTreeHash (.atom prelauncher1stCurryHash) [.atom v]

/-! ## What the hashes determine -/

variable {H}

theorem nftPuzzleHash_eq_some {P : NftPack} {i : Clvm} {l ph : Bytes}
    (h : H.nftPuzzleHash P i l = some ph) :
    ∃ struct transfer m n s inner ownership,
      H.singletonStructHash P.singletonModHash P.launcherModHash (.atom l) = some struct ∧
      H.curryTreeHash (.atom P.nftOwnershipModHash) [m, n, transfer, i] = some ownership ∧
      H.curryTreeHash (.atom P.nftStateLayerModHash)
        [s, n, .atom P.metadataUpdaterHashHash, .atom ownership] = some inner ∧
      H.curryTreeHash (.atom P.singletonModHash) [.atom struct, .atom inner] = some ph := by
  obtain ⟨struct, hstruct, h1⟩ := bind_elim h
  obtain ⟨m, -, h2⟩ := bind_elim h1
  obtain ⟨n, -, h3⟩ := bind_elim h2
  obtain ⟨p, -, h4⟩ := bind_elim h3
  obtain ⟨transfer, -, h5⟩ := bind_elim h4
  obtain ⟨ownership, hownership, h6⟩ := bind_elim h5
  obtain ⟨s, -, h7⟩ := bind_elim h6
  obtain ⟨inner, hinner, h8⟩ := bind_elim h7
  exact ⟨struct, _, _, _, _, inner, ownership, hstruct, hownership, hinner, h8⟩

/-- The owner of an NFT is given by a hash. -/
theorem atom_of_nftPuzzleHash {P : NftPack} {i : Clvm} {l ph : Bytes}
    (h : H.nftPuzzleHash P i l = some ph) : ∃ b, i = .atom b := by
  obtain ⟨_, _, _, _, _, _, _, -, hownership, -⟩ := nftPuzzleHash_eq_some h
  exact atom_of_curryTreeHash hownership i (by simp)

/-- The puzzle hash of an NFT determines its launcher and its owner. -/
theorem nftPuzzleHash_inj (hH : H.CollisionFree) {P : NftPack} {i i' : Clvm} {l l' ph : Bytes}
    (h : H.nftPuzzleHash P i l = some ph) (h' : H.nftPuzzleHash P i' l' = some ph) :
    i = i' ∧ l = l' := by
  obtain ⟨struct, transfer, m, n, s, inner, ownership, h1, h2, h3, h4⟩ := nftPuzzleHash_eq_some h
  obtain ⟨struct', transfer', m', n', s', inner', ownership', h1', h2', h3', h4'⟩ :=
    nftPuzzleHash_eq_some h'
  obtain ⟨hstruct, hinner⟩ : struct = struct' ∧ inner = inner' := by
    simpa using (curryTreeHash_inj hH h4 h4').2
  rw [← hstruct] at h1'
  rw [← hinner] at h3'
  obtain ⟨-, -, hownership⟩ : s = s' ∧ n = n' ∧ ownership = ownership' := by
    simpa using (curryTreeHash_inj hH h3 h3').2
  rw [← hownership] at h2'
  obtain ⟨-, -, -, hi⟩ : m = m' ∧ n = n' ∧ transfer = transfer' ∧ i = i' := by
    simpa using (curryTreeHash_inj hH h2 h2').2
  have hl := treeHash_inj hH h1 h1'
  simp only [Clvm.pair.injEq, Clvm.atom.injEq, true_and, and_true] at hl
  exact ⟨hi, hl⟩

theorem nftCoinId_eq_some {P : NftPack} {i : Clvm} {l id : Bytes} :
    H.nftCoinId P i l = some id ↔ ∃ full, H.nftPuzzleHash P i l = some full ∧
      H.coinid (.atom l) (.atom full) (.atom [1]) = some id := by
  simp only [nftCoinId, Option.bind_eq_bind, Option.bind_eq_some_iff]

theorem uniquenessPrelauncherPuzzleHash_eq_some {c ph : Bytes} {v : Clvm} :
    H.uniquenessPrelauncherPuzzleHash c v = some ph ↔
      ∃ d, H.treeHashAtom v = some d ∧ H.curryTreeHash (.atom c) [.atom d] = some ph := by
  simp only [uniquenessPrelauncherPuzzleHash, Option.bind_eq_bind, Option.bind_eq_some_iff]

/-- The puzzle hash of a prelauncher determines its value. -/
theorem uniquenessPrelauncherPuzzleHash_inj (hH : H.CollisionFree) {c c' ph : Bytes} {v v' : Clvm}
    (h : H.uniquenessPrelauncherPuzzleHash c v = some ph)
    (h' : H.uniquenessPrelauncherPuzzleHash c' v' = some ph) : c = c' ∧ v = v' := by
  obtain ⟨d, hd, hc⟩ := uniquenessPrelauncherPuzzleHash_eq_some.1 h
  obtain ⟨d', hd', hc'⟩ := uniquenessPrelauncherPuzzleHash_eq_some.1 h'
  obtain ⟨hcc, hdd⟩ := curryTreeHash_inj hH hc hc'
  obtain rfl : d = d' := by simpa using hdd
  exact ⟨Clvm.atom.inj hcc, treeHashAtom_inj hH hd hd'⟩

end HashOracle

/-! ## Tables for NFTs -/

namespace HashOracle

/-- What is hashed for a prelauncher. -/
def prelauncherSkeletons (prelauncher1stCurryHash value : Bytes) : List Skeleton :=
  [.atom value, .curry prelauncher1stCurryHash [(Skeleton.atom value).hash]]

/-- The puzzle hash of a prelauncher, by SHA-256. -/
def prelauncherHash (prelauncher1stCurryHash value : Bytes) : Bytes :=
  (Skeleton.curry prelauncher1stCurryHash [(Skeleton.atom value).hash]).hash

theorem uniquenessPrelauncherPuzzleHash_ofSkeletons {ts : List Skeleton} {c value : Bytes}
    (h : prelauncherSkeletons c value ⊆ ts) :
    (ofSkeletons ts).uniquenessPrelauncherPuzzleHash c (.atom value)
      = some (prelauncherHash c value) := by
  have hcurry : Skeleton.curry c [(Skeleton.atom value).hash] ∈ ts :=
    h (by simp [prelauncherSkeletons])
  exact uniquenessPrelauncherPuzzleHash_eq_some.2
    ⟨_, treeHashAtom_ofSkeletons (h (by simp [prelauncherSkeletons])),
      curryTreeHash_ofSkeletons hcurry⟩

theorem uniquenessPrelauncherPuzzleHash_mono {H H' : HashOracle} (h : H ≤ H') {c ph : Bytes}
    {v : Clvm} (hph : H.uniquenessPrelauncherPuzzleHash c v = some ph) :
    H'.uniquenessPrelauncherPuzzleHash c v = some ph := by
  obtain ⟨d, hd, hc⟩ := uniquenessPrelauncherPuzzleHash_eq_some.1 hph
  exact uniquenessPrelauncherPuzzleHash_eq_some.2
    ⟨d, treeHashAtom_mono h hd, curryTreeHash_mono h hc⟩

/-- What is hashed for the first coin of an NFT. -/
def nftSkeletons (P : NftPack) (owner launcherId : Bytes) : List Skeleton :=
  let struct := Skeleton.ofClvm (.pair (.atom P.singletonModHash)
    (.pair (.atom launcherId) (.atom P.launcherModHash)))
  let transferProgram := Skeleton.curry P.transferProgramModHash
    [struct.hash, P.royaltyAddressHash, (Skeleton.atom P.tradePricePercentage).hash]
  let ownershipLayer := Skeleton.curry P.nftOwnershipModHash
    [(Skeleton.atom P.nftOwnershipModHash).hash, (Skeleton.atom []).hash, transferProgram.hash,
      owner]
  let singletonInner := Skeleton.curry P.nftStateLayerModHash
    [(Skeleton.atom P.nftStateLayerModHash).hash, (Skeleton.atom []).hash,
      P.metadataUpdaterHashHash, ownershipLayer.hash]
  [.curry P.singletonModHash [struct.hash, singletonInner.hash], struct,
    .atom P.nftOwnershipModHash, .atom [], .atom P.tradePricePercentage, transferProgram,
    ownershipLayer, .atom P.nftStateLayerModHash, singletonInner]

/-- The puzzle hash of the first coin of an NFT, by SHA-256. -/
def nftHash (P : NftPack) (owner launcherId : Bytes) : Bytes :=
  ((nftSkeletons P owner launcherId).head (List.cons_ne_nil _ _)).hash

theorem nftPuzzleHash_ofSkeletons {ts : List Skeleton} {P : NftPack} {owner launcherId : Bytes}
    (h : nftSkeletons P owner launcherId ⊆ ts) :
    (ofSkeletons ts).nftPuzzleHash P (.atom owner) launcherId
      = some (nftHash P owner launcherId) := by
  have hmem : ∀ t ∈ nftSkeletons P owner launcherId, t ∈ ts := fun _ ht => h ht
  simp only [nftSkeletons, List.forall_mem_cons] at hmem
  obtain ⟨hfull, hstruct, hownershipMod, hnil, hpercentage, htransfer, hownership, hstateMod,
    hinner, -⟩ := hmem
  refine bind_intro (treeHash_ofSkeletons hstruct) ?_
  refine bind_intro (treeHashAtom_ofSkeletons hownershipMod) ?_
  refine bind_intro (treeHashAtom_ofSkeletons hnil) ?_
  refine bind_intro (treeHashAtom_ofSkeletons hpercentage) ?_
  refine bind_intro (curryTreeHash_ofSkeletons htransfer) ?_
  refine bind_intro (curryTreeHash_ofSkeletons hownership) ?_
  refine bind_intro (treeHashAtom_ofSkeletons hstateMod) ?_
  refine bind_intro (curryTreeHash_ofSkeletons hinner) ?_
  exact curryTreeHash_ofSkeletons hfull

theorem nftPuzzleHash_mono {H H' : HashOracle} (h : H ≤ H') {P : NftPack} {i : Clvm}
    {l ph : Bytes} (hph : H.nftPuzzleHash P i l = some ph) :
    H'.nftPuzzleHash P i l = some ph := by
  obtain ⟨struct, h1, hph⟩ := bind_elim hph
  obtain ⟨m, h2, hph⟩ := bind_elim hph
  obtain ⟨n, h3, hph⟩ := bind_elim hph
  obtain ⟨p, h4, hph⟩ := bind_elim hph
  obtain ⟨transfer, h5, hph⟩ := bind_elim hph
  obtain ⟨ownership, h6, hph⟩ := bind_elim hph
  obtain ⟨s, h7, hph⟩ := bind_elim hph
  obtain ⟨inner, h8, hph⟩ := bind_elim hph
  exact bind_intro (treeHash_mono h h1) (bind_intro (treeHashAtom_mono h h2)
    (bind_intro (treeHashAtom_mono h h3) (bind_intro (treeHashAtom_mono h h4)
      (bind_intro (curryTreeHash_mono h h5) (bind_intro (curryTreeHash_mono h h6)
        (bind_intro (treeHashAtom_mono h h7) (bind_intro (curryTreeHash_mono h h8)
          (curryTreeHash_mono h hph))))))))

end HashOracle

/-! ## From the registry to the NFT -/

/-- `uniqueness_prelauncher.rue`: it creates a launcher, and announces its value. -/
def uniquenessPrelauncherMain (launcherPh value : Bytes) : List Condition :=
  [.createCoin (.atom launcherPh) (.atom [1]) [], .createPuzzleAnnouncement (.atom value)]

/-- The coins on the way from a registry coin to the first coin of an NFT: the
registry creates the prelauncher of `value`, this one the launcher, and this one
the NFT, which goes to `owner`. -/
structure Launches (H : HashOracle) (P : NftPack) (prelauncher1stCurryHash : Bytes)
    (registryId value owner : Clvm) (nftId : Bytes) where
  prelauncherPuzzleHash : Bytes
  prelauncherId : Bytes
  launcherId : Bytes
  hashes_prelauncher : H.uniquenessPrelauncherPuzzleHash prelauncher1stCurryHash value
    = some prelauncherPuzzleHash
  prelauncher : H.coinid registryId (.atom prelauncherPuzzleHash) .nil = some prelauncherId
  launcher : H.coinid (.atom prelauncherId) (.atom P.launcherModHash) (.atom [1])
    = some launcherId
  nft : H.nftCoinId P owner launcherId = some nftId

/-- **One NFT coin, one chain.**  The id of the NFT coin determines the registry
coin, the value and the owner it was launched for. -/
theorem Launches.unique {H : HashOracle} (hH : H.CollisionFree) {P : NftPack} {c nftId : Bytes}
    {registryId registryId' value value' owner owner' : Clvm}
    (x : Launches H P c registryId value owner nftId)
    (y : Launches H P c registryId' value' owner' nftId) :
    registryId = registryId' ∧ value = value' ∧ owner = owner' := by
  obtain ⟨full, hfull, hid⟩ := HashOracle.nftCoinId_eq_some.1 x.nft
  obtain ⟨full', hfull', hid'⟩ := HashOracle.nftCoinId_eq_some.1 y.nft
  -- from the NFT coin to the launcher, to the prelauncher, to the registry
  obtain ⟨-, hph, -⟩ := HashOracle.coinid_inj hH hid hid'
  rw [← Clvm.atom.inj hph] at hfull'
  obtain ⟨howner, hlauncherId⟩ := HashOracle.nftPuzzleHash_inj hH hfull hfull'
  have hlauncher := y.launcher
  rw [← hlauncherId] at hlauncher
  obtain ⟨hprelauncherId, -, -⟩ := HashOracle.coinid_inj hH x.launcher hlauncher
  have hprelauncher := y.prelauncher
  rw [← Clvm.atom.inj hprelauncherId] at hprelauncher
  obtain ⟨hregistry, hprelauncherPh, -⟩ := HashOracle.coinid_inj hH x.prelauncher hprelauncher
  have hvalue := y.hashes_prelauncher
  rw [← Clvm.atom.inj hprelauncherPh] at hvalue
  exact ⟨hregistry, (HashOracle.uniquenessPrelauncherPuzzleHash_inj hH x.hashes_prelauncher
    hvalue).2, howner⟩

end SlotMachine
