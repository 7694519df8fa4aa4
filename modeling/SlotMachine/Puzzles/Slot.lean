import SlotMachine.Chain.Condition
import SlotMachine.Clvm.Extension
import SlotMachine.Clvm.Machine
import SlotMachine.Ledger.Settlement

/-!
# Slots and singletons

A registry stores each of its values in a slot: a coin of amount zero whose
puzzle hash commits to the registry and to the tree hash of the value.  An
action reads a value by sending the slot the message that lets it be spent, and
writes one by creating the coin (`slot.rue`).

* `spendSlot`, `createSlot`, `createSlotWithHint` — the conditions that do so.
* `slotCoin` — the puzzle hash of the slot of a value; without hash collisions
  it determines the value and the kind of slot (`slotCoin_inj`).
* `singletonPuzzleHash` — the puzzle hash of a singleton with a given launcher
  id, which messages from owners are checked against.
* `slotMain` — the slot puzzle itself.
-/

namespace SlotMachine

namespace HashOracle

variable (H : HashOracle)

/-- `get_slot_puzzle_hash`. -/
def getSlotPuzzleHash (slot1stCurryHash slotValueHash : Bytes) : Option Bytes := do
  let v ← H.treeHashAtom (.atom slotValueHash)
  H.curryTreeHash (.atom slot1stCurryHash) [.atom v]

/-- `spend_slot`. -/
def spendSlot (slot1stCurryHash slotValueHash : Bytes) : Option Condition := do
  let ph ← H.getSlotPuzzleHash slot1stCurryHash slotValueHash
  return .sendMessage puzzlePuzzle .nil [.atom ph]

/-- `create_slot_with_hint`. -/
def createSlotWithHint (slot1stCurryHash slotValueHash hint : Bytes) : Option Condition := do
  let ph ← H.getSlotPuzzleHash slot1stCurryHash slotValueHash
  return .createCoin (.atom ph) .nil [.atom hint]

/-- `create_slot`: the hint is the hash of the once curried slot puzzle. -/
def createSlot (slot1stCurryHash slotValueHash : Bytes) : Option Condition :=
  H.createSlotWithHint slot1stCurryHash slotValueHash slot1stCurryHash

/-- The puzzle hash of the slot that holds a value. -/
def slotCoin (slot1stCurryHash : Bytes) (value : Clvm) : Option Bytes := do
  let d ← H.treeHash value
  H.getSlotPuzzleHash slot1stCurryHash d

/-- `spend_slot(…, tree_hash(value))`. -/
def spendSlotOf (slot1stCurryHash : Bytes) (value : Clvm) : Option Condition := do
  let d ← H.treeHash value
  H.spendSlot slot1stCurryHash d

/-- `create_slot(…, tree_hash(value))`. -/
def createSlotOf (slot1stCurryHash : Bytes) (value : Clvm) : Option Condition := do
  let d ← H.treeHash value
  H.createSlot slot1stCurryHash d

/-- The tree hash of a singleton struct. -/
def singletonStructHash (singletonModHash singletonLauncherPuzzleHash : Bytes)
    (launcherId : Clvm) : Option Bytes :=
  H.treeHash (.pair (.atom singletonModHash)
    (.pair launcherId (.atom singletonLauncherPuzzleHash)))

/-- `singleton_puzzle_hash`. -/
def singletonPuzzleHash (singletonModHash singletonLauncherPuzzleHash : Bytes)
    (launcherId innerPuzzleHash : Clvm) : Option Bytes := do
  let struct ← H.singletonStructHash singletonModHash singletonLauncherPuzzleHash launcherId
  H.curryTreeHash (.atom singletonModHash) [.atom struct, innerPuzzleHash]

/-! ## What the conditions say -/

variable {H}

theorem getSlotPuzzleHash_eq_some {fc d ph : Bytes} :
    H.getSlotPuzzleHash fc d = some ph ↔
      ∃ v, H.treeHashAtom (.atom d) = some v ∧ H.curryTreeHash (.atom fc) [.atom v] = some ph := by
  simp only [getSlotPuzzleHash, Option.bind_eq_bind, Option.bind_eq_some_iff]

theorem slotCoin_eq_some {fc : Bytes} {value : Clvm} {ph : Bytes} :
    H.slotCoin fc value = some ph ↔
      ∃ d, H.treeHash value = some d ∧ H.getSlotPuzzleHash fc d = some ph := by
  simp only [slotCoin, Option.bind_eq_bind, Option.bind_eq_some_iff]

/-- A slot is spent by sending nil to its puzzle hash. -/
theorem spendSlotOf_eq_some {fc : Bytes} {value : Clvm} {c : Condition} :
    H.spendSlotOf fc value = some c ↔
      ∃ ph, H.slotCoin fc value = some ph ∧ c = .sendMessage puzzlePuzzle .nil [.atom ph] := by
  simp only [spendSlotOf, spendSlot, slotCoin, Option.bind_eq_bind, Option.bind_eq_some_iff,
    Option.pure_def, Option.some.injEq]
  constructor
  · rintro ⟨d, hd, ph, hph, rfl⟩; exact ⟨ph, ⟨d, hd, hph⟩, rfl⟩
  · rintro ⟨ph, ⟨d, hd, hph⟩, rfl⟩; exact ⟨d, hd, ph, hph, rfl⟩

/-- A slot is created as a coin of amount zero. -/
theorem createSlotOf_eq_some {fc : Bytes} {value : Clvm} {c : Condition} :
    H.createSlotOf fc value = some c ↔
      ∃ ph, H.slotCoin fc value = some ph ∧ c = .createCoin (.atom ph) .nil [.atom fc] := by
  simp only [createSlotOf, createSlot, createSlotWithHint, slotCoin, Option.bind_eq_bind,
    Option.bind_eq_some_iff, Option.pure_def, Option.some.injEq]
  constructor
  · rintro ⟨d, hd, ph, hph, rfl⟩; exact ⟨ph, ⟨d, hd, hph⟩, rfl⟩
  · rintro ⟨ph, ⟨d, hd, hph⟩, rfl⟩; exact ⟨d, hd, ph, hph, rfl⟩

/-! ## Slots without hash collisions -/

theorem getSlotPuzzleHash_inj (hH : H.CollisionFree) {fc fc' d d' ph : Bytes}
    (h : H.getSlotPuzzleHash fc d = some ph) (h' : H.getSlotPuzzleHash fc' d' = some ph) :
    fc = fc' ∧ d = d' := by
  obtain ⟨v, hv, hc⟩ := getSlotPuzzleHash_eq_some.1 h
  obtain ⟨v', hv', hc'⟩ := getSlotPuzzleHash_eq_some.1 h'
  obtain ⟨hfc, hps⟩ := curryTreeHash_inj hH hc hc'
  cases hfc
  cases hps
  cases treeHashAtom_inj hH hv hv'
  exact ⟨rfl, rfl⟩

/-- **The puzzle hash of a slot determines its kind and its value.** -/
theorem slotCoin_inj (hH : H.CollisionFree) {fc fc' ph : Bytes} {v v' : Clvm}
    (h : H.slotCoin fc v = some ph) (h' : H.slotCoin fc' v' = some ph) : fc = fc' ∧ v = v' := by
  obtain ⟨d, hd, hp⟩ := slotCoin_eq_some.1 h
  obtain ⟨d', hd', hp'⟩ := slotCoin_eq_some.1 h'
  obtain ⟨rfl, rfl⟩ := getSlotPuzzleHash_inj hH hp hp'
  exact ⟨rfl, treeHash_inj hH hd hd'⟩

theorem singletonPuzzleHash_eq_some {m l : Bytes} {i p : Clvm} {ph : Bytes} :
    H.singletonPuzzleHash m l i p = some ph ↔
      ∃ s, H.singletonStructHash m l i = some s ∧
        H.curryTreeHash (.atom m) [.atom s, p] = some ph := by
  simp only [singletonPuzzleHash, Option.bind_eq_bind, Option.bind_eq_some_iff]

/-! ## A total table computes every slot -/

theorem Total.getSlotPuzzleHash (hH : H.Total) (fc d : Bytes) :
    ∃ ph, H.getSlotPuzzleHash fc d = some ph := by
  obtain ⟨v, hv⟩ := hH.treeHashAtom d
  obtain ⟨ph, hph⟩ := hH.curryTreeHash fc [v]
  exact ⟨ph, getSlotPuzzleHash_eq_some.2 ⟨v, hv, hph⟩⟩

theorem Total.slotCoin (hH : H.Total) (fc : Bytes) (v : Clvm) :
    ∃ ph, H.slotCoin fc v = some ph := by
  obtain ⟨d, hd⟩ := hH.treeHash v
  obtain ⟨ph, hph⟩ := hH.getSlotPuzzleHash fc d
  exact ⟨ph, slotCoin_eq_some.2 ⟨d, hd, hph⟩⟩

theorem Total.singletonPuzzleHash (hH : H.Total) (m l : Bytes) (i : Clvm) (p : Bytes) :
    ∃ ph, H.singletonPuzzleHash m l i (.atom p) = some ph := by
  obtain ⟨s, hs⟩ := hH.treeHash (.pair (.atom m) (.pair i (.atom l)))
  obtain ⟨ph, hph⟩ := hH.curryTreeHash m [s, p]
  exact ⟨ph, singletonPuzzleHash_eq_some.2 ⟨s, hs, hph⟩⟩

theorem slotCoin_mono {H' : HashOracle} (h : H ≤ H') {fc ph : Bytes} {v : Clvm}
    (hph : H.slotCoin fc v = some ph) : H'.slotCoin fc v = some ph := by
  obtain ⟨d, hd, hp⟩ := slotCoin_eq_some.1 hph
  obtain ⟨x, hx, hc⟩ := getSlotPuzzleHash_eq_some.1 hp
  exact slotCoin_eq_some.2 ⟨d, treeHash_mono h hd,
    getSlotPuzzleHash_eq_some.2 ⟨x, treeHashAtom_mono h hx, curryTreeHash_mono h hc⟩⟩

theorem singletonPuzzleHash_mono {H' : HashOracle} (h : H ≤ H') {m l ph : Bytes} {i p : Clvm}
    (hph : H.singletonPuzzleHash m l i p = some ph) :
    H'.singletonPuzzleHash m l i p = some ph := by
  obtain ⟨s, hs, hc⟩ := singletonPuzzleHash_eq_some.1 hph
  exact singletonPuzzleHash_eq_some.2 ⟨s, treeHash_mono h hs, curryTreeHash_mono h hc⟩

/-- The slot of a value, from the hash of the value. -/
theorem getSlotPuzzleHash_of_slotCoin {fc d ph : Bytes} {v : Clvm} (hd : H.treeHash v = some d)
    (hph : H.slotCoin fc v = some ph) : H.getSlotPuzzleHash fc d = some ph := by
  obtain ⟨d', hd', hp⟩ := slotCoin_eq_some.1 hph
  obtain rfl := Option.some.inj (hd.symm.trans hd')
  exact hp

/-! ## Finite tables for slots -/

/-- What is hashed for the slot of a value. -/
def slotSkeletons (slot1stCurryHash : Bytes) (value : Clvm) : List Skeleton :=
  [.ofClvm value, .atom (Skeleton.ofClvm value).hash,
    .curry slot1stCurryHash [(Skeleton.atom (Skeleton.ofClvm value).hash).hash]]

/-- The puzzle hash of the slot of a value, by SHA-256. -/
def slotHash (slot1stCurryHash : Bytes) (value : Clvm) : Bytes :=
  (Skeleton.curry slot1stCurryHash [(Skeleton.atom (Skeleton.ofClvm value).hash).hash]).hash

theorem slotCoin_ofSkeletons {ts : List Skeleton} {fc : Bytes} {value : Clvm}
    (h : slotSkeletons fc value ⊆ ts) :
    (ofSkeletons ts).slotCoin fc value = some (slotHash fc value) := by
  have hcurry : Skeleton.curry fc [(Skeleton.atom (Skeleton.ofClvm value).hash).hash] ∈ ts :=
    h (by simp [slotSkeletons])
  refine slotCoin_eq_some.2 ⟨_, treeHash_ofSkeletons (h (by simp [slotSkeletons])), ?_⟩
  exact getSlotPuzzleHash_eq_some.2 ⟨_, treeHashAtom_ofSkeletons (h (by simp [slotSkeletons])),
    curryTreeHash_ofSkeletons hcurry⟩

/-- What is hashed for a singleton. -/
def singletonSkeletons (m l launcherId innerPuzzleHash : Bytes) : List Skeleton :=
  let struct := Skeleton.ofClvm (.pair (.atom m) (.pair (.atom launcherId) (.atom l)))
  [struct, .curry m [struct.hash, innerPuzzleHash]]

/-- The puzzle hash of a singleton, by SHA-256. -/
def singletonHash (m l launcherId innerPuzzleHash : Bytes) : Bytes :=
  (Skeleton.curry m [(Skeleton.ofClvm (.pair (.atom m)
    (.pair (.atom launcherId) (.atom l)))).hash, innerPuzzleHash]).hash

theorem singletonPuzzleHash_ofSkeletons {ts : List Skeleton} {m l i p : Bytes}
    (h : singletonSkeletons m l i p ⊆ ts) :
    (ofSkeletons ts).singletonPuzzleHash m l (.atom i) (.atom p)
      = some (singletonHash m l i p) := by
  have hcurry : Skeleton.curry m [(Skeleton.ofClvm (.pair (.atom m)
      (.pair (.atom i) (.atom l)))).hash, p] ∈ ts := h (by simp [singletonSkeletons])
  exact singletonPuzzleHash_eq_some.2
    ⟨_, treeHash_ofSkeletons (h (by simp [singletonSkeletons])), curryTreeHash_ofSkeletons hcurry⟩

/-! ## The slot puzzle -/

/-- `slot.rue`, the puzzle of a slot coin: its parent was a coin of the
controller, and the controller sends it nil. -/
def slotMain (H : HashOracle) (singletonModHash singletonStructHash : Bytes) :
    Clvm → Option (List Condition)
  | .pair (.pair parentInfo (.pair innerPuzzleHash amount)) spenderInnerPuzzleHash => do
      let parent ← H.curryTreeHash (.atom singletonModHash)
        [.atom singletonStructHash, innerPuzzleHash]
      let parentId ← H.coinid parentInfo (.atom parent) amount
      let spender ← H.curryTreeHash (.atom singletonModHash)
        [.atom singletonStructHash, spenderInnerPuzzleHash]
      return [.assertMyParentId (.atom parentId), .receiveMessage puzzlePuzzle .nil [.atom spender]]
  | _ => none

end HashOracle

/-! ## What the chain sees -/

section Conditions

variable (ph : Bytes) (cs : List Condition)

@[simp] theorem slotSpends_nil : slotSpends [] = 0 := rfl

@[simp] theorem zeroCoins_nil : zeroCoins [] = 0 := rfl

@[simp] theorem slotSpends_spend :
    slotSpends (.sendMessage puzzlePuzzle .nil [.atom ph] :: cs) = ph ::ₘ slotSpends cs := rfl

@[simp] theorem zeroCoins_create (memos : List Clvm) :
    zeroCoins (.createCoin (.atom ph) .nil memos :: cs) = ph ::ₘ zeroCoins cs := rfl

theorem mem_slotSpends {ph : Bytes} {cs : List Condition}
    (h : .sendMessage puzzlePuzzle .nil [.atom ph] ∈ cs) : ph ∈ slotSpends cs :=
  Multiset.mem_coe.2 (List.mem_filterMap.2 ⟨_, h, rfl⟩)

/-- Any other condition spends no slot. -/
theorem slotSpends_cons_of_none {c : Condition} (h : c.slotSpend? = none) :
    slotSpends (c :: cs) = slotSpends cs := by
  rw [slotSpends, List.filterMap_cons_none h]; rfl

end Conditions

end SlotMachine
