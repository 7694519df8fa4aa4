import SlotMachine.Catalog.Types
import SlotMachine.Ledger.Rewriting
import SlotMachine.Ledger.SortedList

/-!
# CATalog: what an action does to the slots

The coins of amount zero that the registry creates are `Item`s: slots, and the
uniqueness prelaunchers of registered TAILs.  What an action does to them is its
`Footprint`: the slots it replaces, the slots it adds and the prelaunchers it
creates.

* `Footprint.Matches` — the conditions of an action spend and create exactly the
  coins of its footprint.
* `Footprint.Lawful` — a replaced slot keeps its key and gets the next counter,
  and the list of slots is kept or has one TAIL inserted.
-/

namespace SlotMachine.Catalog

open Settlement SortedList
open Rewriting (Rewrite)

/-- A coin of amount zero that the registry creates. -/
inductive Item where
  | slot (value : Clvm)
  | prelauncher (value : Clvm)
  deriving DecidableEq

/-- The puzzle hash of the coin. -/
def Item.coin (H : HashOracle) (K : Constants) : Item → Option Bytes
  | slot v => H.slotCoin K.slot1stCurryHash v
  | prelauncher v => H.uniquenessPrelauncherPuzzleHash K.uniquenessPrelauncher1stCurryHash v

/-- A slot is never a prelauncher, as the two have puzzles of their own. -/
theorem slotCoin_ne_prelauncher {H : HashOracle} (hH : H.CollisionFree) {K : Constants}
    (hK : K.slot1stCurryHash ≠ K.uniquenessPrelauncher1stCurryHash) {v w : Clvm} {ph : Bytes}
    (h : H.slotCoin K.slot1stCurryHash v = some ph) :
    H.uniquenessPrelauncherPuzzleHash K.uniquenessPrelauncher1stCurryHash w ≠ some ph := by
  intro h'
  obtain ⟨d, -, hp⟩ := HashOracle.slotCoin_eq_some.1 h
  obtain ⟨x, -, hc⟩ := HashOracle.getSlotPuzzleHash_eq_some.1 hp
  obtain ⟨y, -, hc'⟩ := HashOracle.uniquenessPrelauncherPuzzleHash_eq_some.1 h'
  exact hK (Clvm.atom.inj (HashOracle.curryTreeHash_inj hH hc hc').1)

/-- Coins that are not told apart are one coin. -/
theorem Item.coin_injOnDomain {H : HashOracle} (hH : H.CollisionFree) {K : Constants}
    (hK : K.slot1stCurryHash ≠ K.uniquenessPrelauncher1stCurryHash) :
    InjOnDomain (Item.coin H K) := by
  intro a a' b h h'
  cases a with
  | slot v =>
      cases a' with
      | slot v' => rw [(HashOracle.slotCoin_inj hH h h').2]
      | prelauncher v' => exact absurd h' (slotCoin_ne_prelauncher hH hK h)
  | prelauncher v =>
      cases a' with
      | slot v' => exact absurd h (slotCoin_ne_prelauncher hH hK h')
      | prelauncher v' => rw [(HashOracle.uniquenessPrelauncherPuzzleHash_inj hH h h').2]

/-! ## Reading slots -/

/-- The counter of a slot, as an integer. -/
def counterOf : Clvm → ℤ
  | .pair (.atom c) _ => intFromBytes c
  | _ => 0

/-- The key of a slot: its TAIL hash. -/
def keyOf : Clvm → Option Clvm
  | .pair _ (.pair k _) => some k
  | _ => none

/-- The place of a slot in the list: its key and its neighbours. -/
def nodeOf : Clvm → Option (Node Clvm)
  | .pair _ (.pair k (.pair l r)) => some ⟨k, l, r⟩
  | _ => none

section

variable (c k l r : Clvm)

@[simp] theorem keyOf_slotValue : keyOf (slotValue c k l r) = some k := rfl

@[simp] theorem nodeOf_slotValue : nodeOf (slotValue c k l r) = some ⟨k, l, r⟩ := rfl

/-- Key and neighbours do not depend on the counter. -/
theorem nodeOf_counter_congr (c c' v : Clvm) : nodeOf (.pair c v) = nodeOf (.pair c' v) := by
  cases v with
  | atom b => rfl
  | pair k n => cases n <;> rfl

theorem keyOf_counter_congr (c c' v : Clvm) : keyOf (.pair c v) = keyOf (.pair c' v) := by
  cases v <;> rfl

end

theorem nodeOf_eq_some {v : Clvm} {n : Node Clvm} (h : nodeOf v = some n) :
    ∃ c, v = slotValue c n.key n.left n.right := by
  unfold nodeOf at h
  split at h
  · obtain rfl := Option.some.inj h
    exact ⟨_, rfl⟩
  · cases h

theorem keyOf_of_nodeOf {v : Clvm} {n : Node Clvm} (h : nodeOf v = some n) :
    keyOf v = some n.key := by
  obtain ⟨c, rfl⟩ := nodeOf_eq_some h
  rfl

/-- How keys are written into slots. -/
def atoms : Pointers Bytes Clvm where
  write := .atom
  read := Clvm.bytes?
  read_write := Clvm.bytes?_atom
  write_read := Clvm.eq_atom_of_bytes

/-! ## Footprints -/

/-- What an action does to the coins of the registry. -/
structure Footprint where
  /-- The slots replaced, each with the slot that comes in its place. -/
  moves : List (Clvm × Clvm)
  /-- The slots added. -/
  inserted : List Clvm
  /-- The values of the prelaunchers created. -/
  prelaunched : List Clvm

namespace Footprint

/-- The footprint as an effect on all coins. -/
def effect (f : Footprint) : Effect Item where
  consumed := (f.moves.map fun m => Item.slot m.1 : List Item)
  created := (f.moves.map (fun m => Item.slot m.2) ++ f.inserted.map Item.slot
    ++ f.prelaunched.map Item.prelauncher : List Item)

/-- The footprint on the slots. -/
def rewrite (f : Footprint) : Rewrite Clvm := ⟨f.moves, f.inserted⟩

/-- The footprint as an effect on the places of the list. -/
def nodeEffect (f : Footprint) : Effect (Option (Node Clvm)) where
  consumed := (f.moves.map fun m => nodeOf m.1 : List (Option (Node Clvm)))
  created := (f.moves.map (fun m => nodeOf m.2) ++ f.inserted.map nodeOf
    : List (Option (Node Clvm)))

/-- The conditions spend and create the coins of the footprint, and no others. -/
structure Matches (H : HashOracle) (K : Constants) (f : Footprint) (cs : List Condition) :
    Prop where
  consumed : Represents (Item.coin H K) f.effect.consumed (slotSpends cs)
  created : Represents (Item.coin H K) f.effect.created (zeroCoins cs)

end Footprint

/-- A replaced slot and its replacement: the counter is one higher, and the key
is the same. -/
structure IsBump (m : Clvm × Clvm) : Prop where
  counters : ∃ c v v', m.1 = .pair (.atom c) v ∧ m.2 = .pair (.ofInt (intFromBytes c + 1)) v'
  key : keyOf m.2 = keyOf m.1

theorem IsBump.counterOf_eq {m : Clvm × Clvm} (h : IsBump m) :
    counterOf m.2 = counterOf m.1 + 1 := by
  obtain ⟨c, v, v', h1, h2⟩ := h.counters
  rw [h1, h2, Clvm.ofInt, counterOf, counterOf, intFromBytes_intToBytes]

/-- The laws of a footprint. -/
structure Footprint.Lawful (f : Footprint) : Prop where
  bumps : ∀ m ∈ f.moves, IsBump m
  list : (Keeps f.nodeEffect ∧ f.inserted = [] ∧ ∀ m ∈ f.moves, nodeOf m.2 = nodeOf m.1) ∨
    ∃ (t : Bytes) (l r : Clvm), Inserts atoms t f.nodeEffect ∧
      f.inserted = [slotValue .nil (.atom t) l r]

/-- An action that touches no slot is lawful. -/
theorem Footprint.lawful_empty : Lawful ⟨[], [], []⟩ where
  bumps _ hm := absurd hm List.not_mem_nil
  list := Or.inl ⟨rfl, rfl, fun _ hm => absurd hm List.not_mem_nil⟩

/-- Replacing a slot with a higher counter, and nothing else, is lawful. -/
theorem Footprint.lawful_bump {m : Clvm × Clvm} (hm : IsBump m) (hn : nodeOf m.2 = nodeOf m.1) :
    Lawful ⟨[m], [], []⟩ where
  bumps m' hm' := by rw [List.mem_singleton.1 hm']; exact hm
  list := Or.inl ⟨by simp [Keeps, nodeEffect, hn], rfl, fun m' hm' => by
    rw [List.mem_singleton.1 hm']; exact hn⟩

theorem Footprint.Lawful.bumps_rewrite {f : Footprint} (h : f.Lawful) :
    f.rewrite.Bumps keyOf counterOf where
  key_eq m hm := (h.bumps m hm).key
  rank_eq m hm := (h.bumps m hm).counterOf_eq

end SlotMachine.Catalog
