import SlotMachine.Ledger.SortedList
import SlotMachine.Ledger.Trail
import SlotMachine.Xchandles.Types

/-!
# XCHandles: what an action does to the slots

The slots of a registry are `Item`s: handle slots and update slots.  Whatever
an action does to them is its `Footprint`: the handle slots it spends, each
with the slot it puts in its place, the handle slots it adds, and the update
slots it opens and closes.

* `Footprint.Matches` — the conditions of an action spend and create exactly
  the coins of its footprint.
* `Footprint.Lawful` — the laws every action keeps: a spent handle slot comes
  back with the same key and the next counter, and the list of handles is kept
  or has one handle inserted.
-/

namespace SlotMachine.Xchandles

open Settlement SortedList

/-- A slot of the registry, by the value it holds. -/
inductive Item where
  | handle (value : Clvm)
  | update (value : Clvm)
  deriving DecidableEq

/-- The puzzle hash of the slot. -/
def Item.coin (H : HashOracle) (K : Constants) : Item → Option Bytes
  | handle v => H.slotCoin K.handleSlot1stCurryHash v
  | update v => H.slotCoin K.updateSlot1stCurryHash v

/-- Slots that are not told apart are one slot, as long as the two kinds of
slots have puzzles of their own. -/
theorem Item.coin_injOnDomain {H : HashOracle} (hH : H.CollisionFree) {K : Constants}
    (hK : K.handleSlot1stCurryHash ≠ K.updateSlot1stCurryHash) :
    InjOnDomain (Item.coin H K) := by
  intro a a' b h h'
  cases a with
  | handle v =>
      cases a' with
      | handle v' => rw [(HashOracle.slotCoin_inj hH h h').2]
      | update v' => exact absurd (HashOracle.slotCoin_inj hH h h').1 hK
  | update v =>
      cases a' with
      | handle v' => exact absurd (HashOracle.slotCoin_inj hH h' h).1 hK
      | update v' => rw [(HashOracle.slotCoin_inj hH h h').2]

/-! ## Reading handle slots -/

/-- The counter of a handle slot, as an integer. -/
def counterOf : Clvm → ℤ
  | .pair (.atom c) _ => intFromBytes c
  | _ => 0

/-- The key of a handle slot. -/
def keyOf : Clvm → Option Clvm
  | .pair _ (.pair (.pair k _) _) => some k
  | _ => none

/-- The place of a handle slot in the list: its key and its neighbours. -/
def nodeOf : Clvm → Option (Node Clvm)
  | .pair _ (.pair (.pair k (.pair l r)) _) => some ⟨k, l, r⟩
  | _ => none

/-- The expiration of a handle slot. -/
def expirationOf : Clvm → Option Clvm
  | .pair _ (.pair _ (.pair e _)) => some e
  | _ => none

/-- Owner and resolved launcher id of a handle slot. -/
def dataOf : Clvm → Option Clvm
  | .pair _ (.pair _ (.pair _ d)) => some d
  | _ => none

section

variable (c k n e d : Clvm)

@[simp] theorem keyOf_handleSlotValue : keyOf (handleSlotValue c k n e d) = some k := rfl

@[simp] theorem nodeOf_handleSlotValue (l r : Clvm) :
    nodeOf (handleSlotValue c k (.pair l r) e d) = some ⟨k, l, r⟩ := rfl

@[simp] theorem expirationOf_handleSlotValue :
    expirationOf (handleSlotValue c k n e d) = some e := rfl

@[simp] theorem dataOf_handleSlotValue : dataOf (handleSlotValue c k n e d) = some d := rfl

@[simp] theorem keyOf_handleSlotWith (b : Clvm) : keyOf (handleSlotWith c k n b) = some k := rfl

@[simp] theorem nodeOf_handleSlotWith (l r b : Clvm) :
    nodeOf (handleSlotWith c k (.pair l r) b) = some ⟨k, l, r⟩ := rfl

end

/-- Expiration and data depend on the copied part only. -/
theorem expirationOf_congr (c c' k k' n n' b : Clvm) :
    expirationOf (handleSlotWith c k n b) = expirationOf (handleSlotWith c' k' n' b) := by
  cases b <;> rfl

theorem dataOf_congr (c c' k k' n n' b : Clvm) :
    dataOf (handleSlotWith c k n b) = dataOf (handleSlotWith c' k' n' b) := by
  cases b <;> rfl

/-- The place in the list does not depend on counter, expiration and data. -/
theorem nodeOf_congr (c c' k n e e' d d' : Clvm) :
    nodeOf (handleSlotValue c k n e d) = nodeOf (handleSlotValue c' k n e' d') := by
  cases n <;> rfl

theorem keyOf_of_nodeOf {v : Clvm} {n : Node Clvm} (h : nodeOf v = some n) :
    keyOf v = some n.key := by
  unfold nodeOf at h
  split at h
  · obtain rfl := Option.some.inj h; rfl
  · cases h

/-- How keys are written into slots. -/
def atoms : Pointers Bytes Clvm where
  write := .atom
  read := Clvm.bytes?
  read_write := Clvm.bytes?_atom
  write_read := Clvm.eq_atom_of_bytes

/-! ## Footprints -/

/-- What an action does to the slots. -/
structure Footprint where
  /-- The handle slots spent, each with the slot that replaces it. -/
  moves : List (Clvm × Clvm)
  /-- The handle slots added. -/
  inserted : List Clvm
  /-- The update slots created. -/
  opened : List Clvm
  /-- The update slots spent. -/
  closed : List Clvm

namespace Footprint

/-- The footprint as an effect on all slots. -/
def effect (f : Footprint) : Effect Item where
  consumed := (f.moves.map (fun m => Item.handle m.1) ++ f.closed.map Item.update : List Item)
  created := (f.moves.map (fun m => Item.handle m.2) ++ f.inserted.map Item.handle
    ++ f.opened.map Item.update : List Item)

/-- The footprint as an effect on the places of the handle list. -/
def nodeEffect (f : Footprint) : Effect (Option (Node Clvm)) where
  consumed := (f.moves.map fun m => nodeOf m.1 : List (Option (Node Clvm)))
  created := (f.moves.map (fun m => nodeOf m.2) ++ f.inserted.map nodeOf
    : List (Option (Node Clvm)))

/-- The conditions spend and create the coins of the footprint, and no others. -/
structure Matches (H : HashOracle) (K : Constants) (f : Footprint) (cs : List Condition) :
    Prop where
  consumed : Represents (Item.coin H K) f.effect.consumed (slotSpends cs)
  created : Represents (Item.coin H K) f.effect.created (zeroCoins cs)

end Footprint

/-- A spent handle slot and its replacement: the counter is one higher, the key
is the same. -/
structure IsBump (m : Clvm × Clvm) : Prop where
  parts : ∃ c x x', m.1 = .pair (.atom c) x ∧ m.2 = .pair (.ofInt (intFromBytes c + 1)) x'
  key : keyOf m.2 = keyOf m.1

theorem IsBump.counterOf_eq {m : Clvm × Clvm} (h : IsBump m) :
    counterOf m.2 = counterOf m.1 + 1 := by
  obtain ⟨c, x, x', h1, h2⟩ := h.parts
  rw [h1, h2, Clvm.ofInt, counterOf, counterOf, intFromBytes_intToBytes]

theorem isBump_handleSlotValue {c : Bytes} {k n n' e e' d d' : Clvm} :
    IsBump (handleSlotValue (.atom c) k n e d,
      handleSlotValue (.ofInt (intFromBytes c + 1)) k n' e' d') where
  parts := ⟨c, _, _, rfl, rfl⟩
  key := rfl

theorem isBump_handleSlotWith {c : Bytes} {k n n' b b' : Clvm} :
    IsBump (handleSlotWith (.atom c) k n b,
      handleSlotWith (.ofInt (intFromBytes c + 1)) k n' b') where
  parts := ⟨c, _, _, rfl, rfl⟩
  key := rfl

/-- The laws of a footprint. -/
structure Footprint.Lawful (f : Footprint) : Prop where
  bumps : ∀ m ∈ f.moves, IsBump m
  list : (Keeps f.nodeEffect ∧ f.inserted = []) ∨
    ∃ (h : Bytes) (v : Clvm), Inserts atoms h f.nodeEffect ∧ f.inserted = [v] ∧
      keyOf v = some (.atom h)

/-- The footprint of an action that only rewrites a handle slot in its place. -/
def rewriting (before after : Clvm) : Footprint := ⟨[(before, after)], [], [], []⟩

/-- Rewriting a slot without touching its place in the list is lawful, whatever
happens to update slots. -/
theorem Footprint.lawful_of_place {m : Clvm × Clvm} (hm : IsBump m) (hn : nodeOf m.2 = nodeOf m.1)
    (opened closed : List Clvm) : Lawful ⟨[m], [], opened, closed⟩ where
  bumps m' hm' := by rw [List.mem_singleton.1 hm']; exact hm
  list := Or.inl ⟨by simp [Keeps, nodeEffect, hn], rfl⟩

/-- An action that touches no slot is lawful. -/
theorem Footprint.lawful_empty : Lawful ⟨[], [], [], []⟩ where
  bumps _ hm := absurd hm List.not_mem_nil
  list := Or.inl ⟨rfl, rfl⟩

/-- The coins of a rewriting. -/
theorem rewriting_matches {H : HashOracle} {K : Constants} {before after : Clvm}
    {spent created : Bytes} {cs : List Condition}
    (hspent : H.slotCoin K.handleSlot1stCurryHash before = some spent)
    (hcreated : H.slotCoin K.handleSlot1stCurryHash after = some created)
    (hspends : slotSpends cs = {spent}) (hcreates : zeroCoins cs = {created}) :
    (rewriting before after).Matches H K cs where
  consumed := by
    rw [hspends]
    exact Represents.cons (f := Item.coin H K) (a := .handle before) hspent (represents_zero _)
  created := by
    rw [hcreates]
    exact Represents.cons (f := Item.coin H K) (a := .handle after) hcreated (represents_zero _)

end SlotMachine.Xchandles
