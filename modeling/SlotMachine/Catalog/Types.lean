import SlotMachine.Puzzles.NftPack
import SlotMachine.Puzzles.Precommit

/-!
# CATalog: data

The constants the actions are curried with, the state of the registry, its slot
values, and what its precommit coins commit to (`shared.rue`, and the parameters
of each `main`).

CATalog keys its slots by TAIL hash, as the solution gives it: an atom of any
length, as far as the puzzles are concerned.
-/

namespace SlotMachine.Catalog

/-- The constants the actions of a registry are curried with. -/
structure Constants where
  nftPack : NftPack
  uniquenessPrelauncher1stCurryHash : Bytes
  precommit1stCurryHash : Bytes
  slot1stCurryHash : Bytes
  singletonModHash : Bytes
  otherSingletonStructHash : Bytes

/-! ## The state -/

/-- `CatalogState`. -/
structure CatalogState where
  catMakerPuzzleHash : Clvm
  registrationPrice : Clvm

/-- `CatalogStateTruth`: what an action is given before its solution. -/
structure CatalogStateTruth where
  ephemeralState : Clvm
  state : CatalogState

def CatalogState.toClvm (s : CatalogState) : Clvm := .pair s.catMakerPuzzleHash s.registrationPrice

def CatalogStateTruth.toClvm (t : CatalogStateTruth) : Clvm := .pair t.ephemeralState t.state.toClvm

def CatalogStateTruth.ofClvm? : Clvm → Option CatalogStateTruth
  | .pair e (.pair c p) => some ⟨e, ⟨c, p⟩⟩
  | _ => none

theorem CatalogStateTruth.ofClvm?_eq_some {v : Clvm} {t : CatalogStateTruth} :
    ofClvm? v = some t ↔ v = t.toClvm := by
  constructor
  · intro h
    unfold ofClvm? at h
    split at h
    · cases h; rfl
    · cases h
  · rintro rfl; rfl

theorem CatalogStateTruth.toClvm_injective : Function.Injective toClvm := fun _ _ h =>
  Option.some.inj ((ofClvm?_eq_some.2 rfl).symm.trans (ofClvm?_eq_some.2 h))

/-! ## Slots -/

/-- A slot value: `(counter . (value . (left_value . right_value)))`. -/
def slotValue (counter value left right : Clvm) : Clvm :=
  .pair counter (.pair value (.pair left right))

section Coins

variable (H : HashOracle) (K : Constants)

/-- `spend_slot` for a slot value. -/
def spendSlotValue (value : Clvm) : Option Condition := H.spendSlotOf K.slot1stCurryHash value

/-- `create_slot` for a slot value. -/
def createSlotValue (value : Clvm) : Option Condition := H.createSlotOf K.slot1stCurryHash value

/-- The condition that spends a slot, by its puzzle hash. -/
def spendCoin (ph : Bytes) : Condition := .sendMessage puzzlePuzzle .nil [.atom ph]

/-- The condition that creates a slot, by its puzzle hash. -/
def createSlotCoin (ph : Bytes) : Condition :=
  .createCoin (.atom ph) .nil [.atom K.slot1stCurryHash]

variable {H K}

theorem spendSlotValue_eq_some {value : Clvm} {c : Condition} :
    spendSlotValue H K value = some c ↔
      ∃ ph, H.slotCoin K.slot1stCurryHash value = some ph ∧ c = spendCoin ph :=
  HashOracle.spendSlotOf_eq_some

theorem createSlotValue_eq_some {value : Clvm} {c : Condition} :
    createSlotValue H K value = some c ↔
      ∃ ph, H.slotCoin K.slot1stCurryHash value = some ph ∧ c = createSlotCoin K ph :=
  HashOracle.createSlotOf_eq_some

end Coins

/-! ## Precommit coins -/

/-- `OtherPrecommitData`. -/
structure OtherPrecommitData where
  tailHash : Clvm
  initialNftOwnerPh : Clvm
  refundPuzzleHashHash : Clvm

def OtherPrecommitData.toClvm (d : OtherPrecommitData) : Clvm :=
  .pair d.tailHash (.pair d.initialNftOwnerPh d.refundPuzzleHashHash)

/-- What a precommit coin commits to, and whom it refunds. -/
structure Opening where
  data : OtherPrecommitData
  catMakerHash : Clvm
  catMakerSolution : Clvm

section Precommit

variable (H : HashOracle) (K : Constants)

/-- The hash of the committed value, `(TAIL . HASH)`: the TAIL goes into it as it is. -/
def precommitValueHash (o : Opening) : Option Bytes := do
  let h ← H.treeHash
    (.pair o.data.initialNftOwnerPh (.pair o.catMakerHash o.catMakerSolution))
  let hh ← H.treeHashAtom (.atom h)
  H.treeHashPair o.data.tailHash (.atom hh)

/-- `precommit_inner_puzzle_hash`. -/
def precommitInnerPuzzleHash (o : Opening) : Option Bytes := do
  let v ← precommitValueHash H o
  H.curryTreeHash (.atom K.precommit1stCurryHash) [o.data.refundPuzzleHashHash, .atom v]

/-- `precommit_puzzle_hash`: the CAT maker of a solution applied to the inner
puzzle hash.  Nothing is assumed of its result. -/
def precommitPuzzleHash (M : Machine) (K : Constants) (maker : Clvm) (o : Opening) :
    Option Clvm := do
  let inner ← precommitInnerPuzzleHash M.hash K o
  M.eval maker (.pair (.atom inner) o.catMakerSolution)

variable {H K}

/-- **The committed value**: `sha256(2 || TAIL || sha256(1 || h))`, with a TAIL of
any length, where `h` is the tree hash of the rest. -/
theorem precommitValueHash_eq_some {o : Opening} {d : Bytes} :
    precommitValueHash H o = some d ↔
      ∃ tail h hh, o.data.tailHash = .atom tail ∧
        H.treeHash (.pair o.data.initialNftOwnerPh (.pair o.catMakerHash o.catMakerSolution))
          = some h ∧
        H.digest (1 :: h) = some hh ∧ H.digest (2 :: (tail ++ hh)) = some d := by
  simp only [precommitValueHash, Option.bind_eq_bind, Option.bind_eq_some_iff,
    HashOracle.treeHashAtom_eq_some, HashOracle.treeHashPair_eq_some, Clvm.atom.injEq]
  constructor
  · rintro ⟨h, hh, x, ⟨_, rfl, hx⟩, tail, _, htail, rfl, hd⟩
    exact ⟨tail, h, x, htail, hh, hx, hd⟩
  · rintro ⟨tail, h, x, htail, hh, hx, hd⟩
    exact ⟨h, hh, x, ⟨_, rfl, hx⟩, tail, _, htail, rfl, hd⟩

theorem precommitInnerPuzzleHash_eq_some {o : Opening} {d : Bytes} :
    precommitInnerPuzzleHash H K o = some d ↔
      ∃ v, precommitValueHash H o = some v ∧
        H.curryTreeHash (.atom K.precommit1stCurryHash)
          [o.data.refundPuzzleHashHash, .atom v] = some d := by
  simp only [precommitInnerPuzzleHash, Option.bind_eq_bind, Option.bind_eq_some_iff]

theorem precommitPuzzleHash_eq_some {M : Machine} {maker : Clvm} {o : Opening} {v : Clvm} :
    precommitPuzzleHash M K maker o = some v ↔
      ∃ inner, precommitInnerPuzzleHash M.hash K o = some inner ∧
        M.eval maker (.pair (.atom inner) o.catMakerSolution) = some v := by
  simp only [precommitPuzzleHash, Option.bind_eq_bind, Option.bind_eq_some_iff]

/-- **The hash of the committed value determines all of it.**  What follows the
TAIL is as long as a digest, so the length of the TAIL does not matter. -/
theorem precommitValueHash_inj (hH : H.CollisionFree) {o o' : Opening} {d : Bytes}
    (h : precommitValueHash H o = some d) (h' : precommitValueHash H o' = some d) :
    o.data.tailHash = o'.data.tailHash ∧ o.data.initialNftOwnerPh = o'.data.initialNftOwnerPh ∧
      o.catMakerHash = o'.catMakerHash ∧ o.catMakerSolution = o'.catMakerSolution := by
  obtain ⟨tail, x, hh, htail, hx, hhh, hd⟩ := precommitValueHash_eq_some.1 h
  obtain ⟨tail', x', hh', htail', hx', hhh', hd'⟩ := precommitValueHash_eq_some.1 h'
  have happend := List.tail_eq_of_cons_eq (hH hd hd')
  obtain ⟨rfl, rfl⟩ := List.append_inj' happend
    ((H.length_digest hhh).trans (H.length_digest hhh').symm)
  obtain rfl : x = x' := List.tail_eq_of_cons_eq (hH hhh hhh')
  have hvalue := HashOracle.treeHash_inj hH hx hx'
  simp only [Clvm.pair.injEq] at hvalue
  exact ⟨htail.trans htail'.symm, hvalue⟩

/-- **The inner puzzle hash of a precommit coin determines its opening.** -/
theorem precommitInnerPuzzleHash_inj (hH : H.CollisionFree) {o o' : Opening} {d : Bytes}
    (h : precommitInnerPuzzleHash H K o = some d) (h' : precommitInnerPuzzleHash H K o' = some d) :
    o = o' := by
  obtain ⟨v, hv, hc⟩ := precommitInnerPuzzleHash_eq_some.1 h
  obtain ⟨v', hv', hc'⟩ := precommitInnerPuzzleHash_eq_some.1 h'
  obtain ⟨hrefund, hvv⟩ : o.data.refundPuzzleHashHash = o'.data.refundPuzzleHashHash ∧ v = v' := by
    simpa using (HashOracle.curryTreeHash_inj hH hc hc').2
  rw [← hvv] at hv'
  obtain ⟨htail, howner, hmaker, hsolution⟩ := precommitValueHash_inj hH hv hv'
  obtain ⟨⟨t, w, r⟩, m, s⟩ := o
  obtain ⟨⟨t', w', r'⟩, m', s'⟩ := o'
  simp only at htail howner hmaker hsolution hrefund
  subst htail howner hmaker hsolution hrefund
  rfl

theorem precommitInnerPuzzleHash_mono {H' : HashOracle} (h : H ≤ H') {o : Opening} {d : Bytes}
    (hd : precommitInnerPuzzleHash H K o = some d) : precommitInnerPuzzleHash H' K o = some d := by
  obtain ⟨v, hv, hc⟩ := precommitInnerPuzzleHash_eq_some.1 hd
  obtain ⟨x, hx, h1⟩ := bind_elim hv
  obtain ⟨xx, hxx, h2⟩ := bind_elim h1
  exact precommitInnerPuzzleHash_eq_some.2 ⟨v, bind_intro (HashOracle.treeHash_mono h hx)
    (bind_intro (HashOracle.treeHashAtom_mono h hxx) (HashOracle.treeHashPair_mono h h2)),
    HashOracle.curryTreeHash_mono h hc⟩

/-! ## Tables for precommit coins -/

/-- An opening that consists of atoms, apart from the owner and the CAT maker solution. -/
def openingOf (tail : Bytes) (owner : Clvm) (refund catMakerHash : Bytes)
    (catMakerSolution : Clvm) : Opening :=
  ⟨⟨.atom tail, owner, .atom refund⟩, .atom catMakerHash, catMakerSolution⟩

/-- What is hashed for the inner puzzle of a precommit coin. -/
def openingSkeletons (K : Constants) (tail : Bytes) (owner : Clvm) (refund catMakerHash : Bytes)
    (catMakerSolution : Clvm) : List Skeleton :=
  let rest := Skeleton.ofClvm (.pair owner (.pair (.atom catMakerHash) catMakerSolution))
  let value := Skeleton.pair (.digest tail) (.atom rest.hash)
  [.curry K.precommit1stCurryHash [refund, value.hash], rest, value]

/-- The inner puzzle hash of a precommit coin, by SHA-256. -/
def openingHash (K : Constants) (tail : Bytes) (owner : Clvm) (refund catMakerHash : Bytes)
    (catMakerSolution : Clvm) : Bytes :=
  ((openingSkeletons K tail owner refund catMakerHash catMakerSolution).head
    (List.cons_ne_nil _ _)).hash

theorem precommitInnerPuzzleHash_ofSkeletons {ts : List Skeleton} {tail refund maker : Bytes}
    {owner solution : Clvm} (h : openingSkeletons K tail owner refund maker solution ⊆ ts) :
    precommitInnerPuzzleHash (.ofSkeletons ts) K (openingOf tail owner refund maker solution)
      = some (openingHash K tail owner refund maker solution) := by
  have hmem : ∀ t ∈ openingSkeletons K tail owner refund maker solution, t ∈ ts := fun _ ht => h ht
  simp only [openingSkeletons, List.forall_mem_cons] at hmem
  obtain ⟨hcurry, hrest, hvalue, -⟩ := hmem
  have hsub := HashOracle.queries_subset hvalue
  refine precommitInnerPuzzleHash_eq_some.2 ⟨_, ?_, HashOracle.curryTreeHash_ofSkeletons hcurry⟩
  refine bind_intro (HashOracle.treeHash_ofSkeletons hrest) ?_
  exact bind_intro (HashOracle.treeHashAtom_ofQueries (HashOracle.queries_right hsub))
    (HashOracle.treeHashPair_ofQueries hsub)

end Precommit

end SlotMachine.Catalog
