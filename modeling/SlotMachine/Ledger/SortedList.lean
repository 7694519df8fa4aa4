import Mathlib.Data.List.Chain
import Mathlib.Data.List.Sort
import Mathlib.Data.Prod.Basic
import SlotMachine.Ledger.Tiling

/-!
# A doubly linked list kept as an unordered ledger

The nodes of a doubly linked list are items of a ledger; each holds its key and
the keys of its two neighbours.  Batches of two kinds of effects change the
list, in no order: an effect that `Keeps` every node, and one that `Inserts` a
key between two nodes that point at each other.  Pointers are raw values of a
type `ρ`, of which only some stand for a key: whoever takes part may have
written anything into an item.

No item is ever checked against the rest of the ledger, so that the list is
one at all has to be found in what the effects conserve.  Read a node as the
interval from its key to its right neighbour: an insertion splits one interval
in two and covers the same points.  Read it as the interval from its key down
to its left neighbour: the same holds.

* `Keeps.conserves_right`, `Inserts.conserves_right` and the two facts on the
  left — **what the effects conserve**.
* `WeighsList.settles` — so **batches of effects keep the weights** of the list.
* `exists_doublyLinked` — **a ledger that weighs what two sentinels weigh is one
  sorted, doubly linked list** between them.
* `DoublyLinked.exists_gap` — a key that is not in the list lies between two
  adjacent nodes; `DoublyLinked.not_mem_of_gap` — and one that does is not in it.
-/

namespace SortedList

open Settlement Tiling

/-- A node of the list: its key and the keys of its neighbours. -/
@[ext] structure Node (ρ : Type*) where
  key : ρ
  left : ρ
  right : ρ
  deriving DecidableEq

/-- Apply a function to the three pointers of a node. -/
def Node.map {ρ ρ' : Type*} (f : ρ → ρ') (n : Node ρ) : Node ρ' := ⟨f n.key, f n.left, f n.right⟩

/-- `l` runs from the key `lo` to the key `hi`, in increasing order, and
adjacent nodes point at each other. -/
structure DoublyLinked {κ : Type*} [LT κ] (lo hi : κ) (l : List (Node κ)) : Prop where
  chain : l.IsChain fun a b => a.key < b.key ∧ a.right = b.key ∧ b.left = a.key
  head : l.head?.map Node.key = some lo
  last : l.getLast?.map Node.key = some hi

/-- How keys are written as pointers. -/
structure Pointers (κ ρ : Type*) where
  write : κ → ρ
  read : ρ → Option κ
  read_write : ∀ k, read (write k) = some k
  write_read : ∀ ⦃p k⦄, read p = some k → p = write k

attribute [simp] Pointers.read_write

theorem Pointers.write_injective {κ ρ : Type*} (P : Pointers κ ρ) :
    Function.Injective P.write := fun a b h => by
  have hread : P.read (P.write a) = P.read (P.write b) := congrArg P.read h
  rw [P.read_write, P.read_write] at hread
  exact Option.some.inj hread

variable {κ ρ : Type*} [LinearOrder κ] (P : Pointers κ ρ)

/-! ## Nodes as intervals -/

/-- The interval from a node's key up to its right neighbour. -/
def rightLink (v : Option (Node ρ)) : Option (Tiling.Interval κ) :=
  v.bind fun n => (P.read n.key).bind fun k => (P.read n.right).bind fun r =>
    if h : k < r then some ⟨k, r, h⟩ else none

/-- The interval from a node's key down to its left neighbour. -/
def leftLink (v : Option (Node ρ)) : Option (Tiling.Interval κᵒᵈ) :=
  v.bind fun n => (P.read n.key).bind fun k => (P.read n.left).bind fun l =>
    if h : l < k then some ⟨OrderDual.toDual k, OrderDual.toDual l, h⟩ else none

/-- The key and the right pointer of a node. -/
def rightTag (v : Option (Node ρ)) : Option (ρ × ρ) := v.map fun n => (n.key, n.right)

/-- The key and the left pointer of a node. -/
def leftTag (v : Option (Node ρ)) : Option (ρ × ρ) := v.map fun n => (n.key, n.left)

/-- The points a node covers to its right, or its tag if there are none. -/
def rightWeight : Option (Node ρ) → (κ → ℕ) × Multiset (Option (ρ × ρ)) :=
  weight (rightLink P) rightTag

/-- The points a node covers to its left, or its tag if there are none. -/
def leftWeight : Option (Node ρ) → (κᵒᵈ → ℕ) × Multiset (Option (ρ × ρ)) :=
  weight (leftLink P) leftTag

theorem rightLink_node {k r : κ} (h : k < r) (l : ρ) :
    rightLink P (some ⟨P.write k, l, P.write r⟩) = some ⟨k, r, h⟩ := by
  simp [rightLink, h]

theorem leftLink_node {k l : κ} (h : l < k) (r : ρ) :
    leftLink P (some ⟨P.write k, P.write l, r⟩)
      = some ⟨OrderDual.toDual k, OrderDual.toDual l, h⟩ := by
  simp [leftLink, h]

theorem rightWeight_node {k r : κ} (h : k < r) (l : ρ) :
    rightWeight P (some ⟨P.write k, l, P.write r⟩) = (stretch k r, 0) :=
  weight_of_link (rightLink_node P h l)

theorem leftWeight_node {k l : κ} (h : l < k) (r : ρ) :
    leftWeight P (some ⟨P.write k, P.write l, r⟩)
      = (stretch (OrderDual.toDual k) (OrderDual.toDual l), 0) :=
  weight_of_link (leftLink_node P h r)

/-- The right weight does not depend on the left pointer. -/
theorem rightWeight_congr (k r l l' : ρ) :
    rightWeight P (some ⟨k, l, r⟩) = rightWeight P (some ⟨k, l', r⟩) := rfl

/-- The left weight does not depend on the right pointer. -/
theorem leftWeight_congr (k l r r' : ρ) :
    leftWeight P (some ⟨k, l, r⟩) = leftWeight P (some ⟨k, l, r'⟩) := rfl

/-! ## Effects on the list -/

/-- The effect leaves every node as it is. -/
def Keeps (e : Effect (Option (Node ρ))) : Prop := e.consumed = e.created

/-- The effect inserts `k` between two nodes that point at each other. -/
def Inserts (k : κ) (e : Effect (Option (Node ρ))) : Prop :=
  ∃ (L R : κ) (ll rr : ρ), L < k ∧ k < R ∧
    e.consumed = {some ⟨P.write L, ll, P.write R⟩, some ⟨P.write R, P.write L, rr⟩} ∧
    e.created = {some ⟨P.write k, P.write L, P.write R⟩, some ⟨P.write L, ll, P.write k⟩,
      some ⟨P.write R, P.write k, rr⟩}

theorem Keeps.conserves {M : Type*} [AddCommMonoid M] {e : Effect (Option (Node ρ))} (h : Keeps e)
    (w : Option (Node ρ) → M) : e.Conserves w := congrArg (weigh w) h

/-- A split interval weighs what its two parts weigh. -/
theorem mk_stretch_add {τ : Type*} {κ : Type*} [LinearOrder κ] {lo mid hi : κ} (h : lo ≤ mid)
    (h' : mid ≤ hi) :
    ((stretch lo hi, 0) : (κ → ℕ) × Multiset τ) = (stretch lo mid, 0) + (stretch mid hi, 0) := by
  rw [Prod.mk_add_mk, add_zero, stretch_add h h']

/-- Splitting an interval covers the same points, to the right … -/
theorem Inserts.conserves_right {k : κ} {e : Effect (Option (Node ρ))} (h : Inserts P k e) :
    e.Conserves (rightWeight P) := by
  obtain ⟨L, R, ll, rr, hL, hR, hconsumed, hcreated⟩ := h
  simp only [Effect.Conserves, hconsumed, hcreated, Multiset.insert_eq_cons, weigh_cons,
    weigh_singleton, rightWeight_node P (hL.trans hR), rightWeight_node P hL, rightWeight_node P hR,
    rightWeight_congr P (P.write R) rr (P.write L) (P.write k), mk_stretch_add hL.le hR.le]
  abel

/-- … and to the left. -/
theorem Inserts.conserves_left {k : κ} {e : Effect (Option (Node ρ))} (h : Inserts P k e) :
    e.Conserves (leftWeight P) := by
  obtain ⟨L, R, ll, rr, hL, hR, hconsumed, hcreated⟩ := h
  have hR' : OrderDual.toDual R ≤ OrderDual.toDual k := hR.le
  have hL' : OrderDual.toDual k ≤ OrderDual.toDual L := hL.le
  simp only [Effect.Conserves, hconsumed, hcreated, Multiset.insert_eq_cons, weigh_cons,
    weigh_singleton, leftWeight_node P (hL.trans hR), leftWeight_node P hL, leftWeight_node P hR,
    leftWeight_congr P (P.write L) ll (P.write R) (P.write k), mk_stretch_add hR' hL']
  abel

/-! ## Finding the list -/

variable {P}

theorem rightLink_eq_some {v : Option (Node ρ)} {i : Tiling.Interval κ}
    (h : rightLink P v = some i) :
    ∃ l, v = some ⟨P.write i.lo, l, P.write i.hi⟩ := by
  simp only [rightLink, Option.bind_eq_some_iff] at h
  obtain ⟨n, rfl, k, hk, r, hr, h⟩ := h
  split at h
  · obtain rfl := Option.some.inj h
    exact ⟨n.left, by rw [← P.write_read hk, ← P.write_read hr]⟩
  · cases h

theorem leftLink_eq_some {v : Option (Node ρ)} {i : Tiling.Interval κᵒᵈ}
    (h : leftLink P v = some i) :
    ∃ r, v = some ⟨P.write (OrderDual.ofDual i.lo), P.write (OrderDual.ofDual i.hi), r⟩ := by
  simp only [leftLink, Option.bind_eq_some_iff] at h
  obtain ⟨n, rfl, k, hk, l, hl, h⟩ := h
  split at h
  · obtain rfl := Option.some.inj h
    refine ⟨n.right, ?_⟩
    rw [OrderDual.ofDual_toDual, OrderDual.ofDual_toDual, ← P.write_read hk, ← P.write_read hl]
  · cases h

/-- The node with the pointers written out. -/
def written (P : Pointers κ ρ) (n : Node κ) : Option (Node ρ) := some (n.map P.write)

/-- An entry that has an interval on both sides or the tags of a sentinel is a
node whose three pointers are keys. -/
theorem exists_written (lo hi ll rr : κ) {v : Option (Node ρ)}
    (hright : rightLink P v = none → rightTag v = some (P.write hi, P.write rr))
    (hleft : leftLink P v = none → leftTag v = some (P.write lo, P.write ll)) :
    ∃ n : Node κ, v = written P n := by
  have hr : ∃ k r l, v = some ⟨P.write k, l, P.write r⟩ := by
    cases h : rightLink P v with
    | none =>
        obtain ⟨n, rfl, htag⟩ := Option.map_eq_some_iff.1 (hright h)
        refine ⟨hi, rr, n.left, ?_⟩
        rw [← (Prod.mk.inj htag).1, ← (Prod.mk.inj htag).2]
    | some i =>
        obtain ⟨l, hl⟩ := rightLink_eq_some h
        exact ⟨i.lo, i.hi, l, hl⟩
  have hl : ∃ k l r, v = some ⟨k, P.write l, r⟩ := by
    cases h : leftLink P v with
    | none =>
        obtain ⟨n, rfl, htag⟩ := Option.map_eq_some_iff.1 (hleft h)
        refine ⟨n.key, ll, n.right, ?_⟩
        rw [← (Prod.mk.inj htag).2]
    | some i =>
        obtain ⟨r, hr⟩ := leftLink_eq_some h
        exact ⟨_, _, r, hr⟩
  obtain ⟨k, r, l, rfl⟩ := hr
  obtain ⟨k', l', r', h⟩ := hl
  obtain ⟨-, rfl, -⟩ := Node.mk.inj (Option.some.inj h)
  exact ⟨⟨k, l', r⟩, rfl⟩

/-- The order of the list, and half of its pointers, from a row of intervals to
the right that ends at the key of the last node. -/
theorem chain_of_tiles_right {l : List (Node κ)} {last : Node κ} {lo hi : κ}
    (h : Tiles (fun n => rightLink P (written P n)) lo l hi) (hlast : last.key = hi) :
    (l ++ [last]).IsChain (fun a b => a.key < b.key ∧ a.right = b.key) ∧
      (l ++ [last]).head?.map Node.key = some lo := by
  induction l generalizing lo with
  | nil => exact ⟨List.isChain_singleton _, by rw [List.nil_append, List.head?_cons, Option.map_some,
      hlast, h]⟩
  | cons n ns ih =>
      obtain ⟨i, hi', rfl, hns⟩ := h
      obtain ⟨hchain, hhead⟩ := ih hns
      obtain ⟨p, hp⟩ := rightLink_eq_some hi'
      obtain ⟨hkey, -, hright⟩ := Node.mk.inj (Option.some.inj hp)
      have hk : n.key = i.lo := P.write_injective hkey
      have hr : n.right = i.hi := P.write_injective hright
      refine ⟨List.isChain_cons.2 ⟨fun b hb => ?_, hchain⟩, by rw [List.cons_append, List.head?_cons,
        Option.map_some, hk]⟩
      have hb' : (ns ++ [last]).head? = some b := hb
      rw [hb', Option.map_some, Option.some.injEq] at hhead
      exact ⟨by rw [hk, hhead]; exact i.lt, by rw [hr, hhead]⟩

/-- The same from a row of intervals to the left. -/
theorem chain_of_tiles_left {l : List (Node κ)} {last : Node κ} {lo hi : κᵒᵈ}
    (h : Tiles (fun n => leftLink P (written P n)) lo l hi)
    (hlast : OrderDual.toDual last.key = hi) :
    (l ++ [last]).IsChain (fun a b => b.key < a.key ∧ a.left = b.key) ∧
      (l ++ [last]).head?.map (fun n => OrderDual.toDual n.key) = some lo := by
  induction l generalizing lo with
  | nil => exact ⟨List.isChain_singleton _, by rw [List.nil_append, List.head?_cons, Option.map_some,
      hlast, h]⟩
  | cons n ns ih =>
      obtain ⟨i, hi', rfl, hns⟩ := h
      obtain ⟨hchain, hhead⟩ := ih hns
      obtain ⟨p, hp⟩ := leftLink_eq_some hi'
      obtain ⟨hkey, hleft, -⟩ := Node.mk.inj (Option.some.inj hp)
      have hk : OrderDual.toDual n.key = i.lo :=
        congrArg OrderDual.toDual (P.write_injective hkey)
      have hl : OrderDual.toDual n.left = i.hi :=
        congrArg OrderDual.toDual (P.write_injective hleft)
      refine ⟨List.isChain_cons.2 ⟨fun b hb => ?_, hchain⟩, by rw [List.cons_append, List.head?_cons,
        Option.map_some, hk]⟩
      have hb' : (ns ++ [last]).head? = some b := hb
      rw [hb', Option.map_some, Option.some.injEq] at hhead
      have hlt : OrderDual.toDual n.key < OrderDual.toDual b.key := by
        rw [hk, hhead]; exact i.lt
      exact ⟨hlt, OrderDual.toDual.injective (by rw [hl, hhead])⟩

theorem isChain_and {α : Type*} {R S : α → α → Prop} {l : List α} (hR : l.IsChain R)
    (hS : l.IsChain S) : l.IsChain fun a b => R a b ∧ S a b := by
  induction l with
  | nil => exact List.isChain_nil
  | cons a l ih =>
      obtain ⟨hRa, hRl⟩ := List.isChain_cons.1 hR
      obtain ⟨hSa, hSl⟩ := List.isChain_cons.1 hS
      exact List.isChain_cons.2 ⟨fun b hb => ⟨hRa b hb, hSa b hb⟩, ih hRl hSl⟩

/-- Keys that increase from node to node increase throughout. -/
theorem pairwise_key_of_isChain {l : List (Node κ)} (h : l.IsChain fun a b => a.key < b.key) :
    l.Pairwise fun a b => a.key < b.key := by
  have _htrans : Trans (fun a b : Node κ => a.key < b.key) (fun a b : Node κ => a.key < b.key)
    (fun a b : Node κ => a.key < b.key) := ⟨fun h h' => lt_trans h h'⟩
  exact List.isChain_iff_pairwise.1 h

/-- **The list.**  A ledger that weighs what two sentinels weigh, to the right
and to the left, is one sorted, doubly linked list between them. -/
theorem exists_doublyLinked {s : Multiset (Option (Node ρ))} {lo hi ll rr : κ} (hlt : lo < hi)
    (hright : weigh (rightWeight P) s
      = (stretch lo hi, {some (P.write hi, P.write rr)}))
    (hleft : weigh (leftWeight P) s
      = (stretch (OrderDual.toDual hi) (OrderDual.toDual lo), {some (P.write lo, P.write ll)})) :
    ∃ l : List (Node κ), s = (l.map (written P) : Multiset (Option (Node ρ))) ∧
      DoublyLinked lo hi l := by
  -- first, every entry is a proper node
  have hwritten : ∀ v ∈ s, ∃ n : Node κ, v = written P n := by
    intro v hv
    refine exists_written lo hi ll rr (fun h => ?_) fun h => ?_
    · have hmem : rightTag v ∈ (weigh (rightWeight P) s).2 := tag_mem_weigh rightTag hv h
      rw [hright] at hmem
      exact Multiset.mem_singleton.1 hmem
    · have hmem : leftTag v ∈ (weigh (leftWeight P) s).2 := tag_mem_weigh leftTag hv h
      rw [hleft] at hmem
      exact Multiset.mem_singleton.1 hmem
  obtain ⟨nodes, rfl⟩ : ∃ nodes : Multiset (Node κ), s = nodes.map (written P) := by
    have _hne : Nonempty (Node κ) := ⟨⟨lo, lo, lo⟩⟩
    choose! f hf using hwritten
    refine ⟨s.map f, ?_⟩
    rw [Multiset.map_map]
    exact (Multiset.map_id s).symm.trans (Multiset.map_congr rfl fun v hv => hf v hv)
  -- both rows contain all the nodes, and both are sorted by key
  have hcomp : ∀ {M : Type _} [AddCommMonoid M] (w : Option (Node ρ) → M),
      weigh w (nodes.map (written P)) = weigh (fun n => w (written P n)) nodes := by
    intro M _ w
    rw [weigh, weigh, Multiset.map_map]
    rfl
  rw [hcomp] at hright hleft
  obtain ⟨top, rights, hrights, -, htop, htiles⟩ := exists_tiles_cons
    (fun n => rightLink P (written P n)) (fun n => rightTag (written P n)) hright hlt.le
  obtain ⟨bottom, lefts, hlefts, -, hbottom, htiles'⟩ := exists_tiles_cons
    (fun n => leftLink P (written P n)) (fun n => leftTag (written P n)) hleft hlt.le
  have htopKey : top.key = hi := P.write_injective (Prod.mk.inj (Option.some.inj htop)).1
  have hbottomKey : bottom.key = lo :=
    P.write_injective (Prod.mk.inj (Option.some.inj hbottom)).1
  obtain ⟨hchain, hhead⟩ := chain_of_tiles_right htiles htopKey
  obtain ⟨hchain', -⟩ := chain_of_tiles_left htiles' (congrArg OrderDual.toDual hbottomKey)
  have hperm : (rights ++ [top]).Perm (lefts ++ [bottom]).reverse := by
    rw [← Multiset.coe_eq_coe, Multiset.coe_reverse, ← Multiset.coe_add, ← Multiset.coe_add,
      Multiset.coe_singleton, Multiset.coe_singleton, add_comm, Multiset.singleton_add, hrights,
      add_comm, Multiset.singleton_add, hlefts]
  have hreverse := List.isChain_reverse.2 hchain'
  have hsorted := pairwise_key_of_isChain (hchain.imp fun _ _ h => h.1)
  have hsorted' := pairwise_key_of_isChain (hreverse.imp fun _ _ h => h.1)
  have heq : rights ++ [top] = (lefts ++ [bottom]).reverse :=
    hperm.eq_of_pairwise (fun a b _ _ h h' => absurd (lt_trans h h') (lt_irrefl _)) hsorted hsorted'
  refine ⟨rights ++ [top], ?_, ?_, hhead, ?_⟩
  · rw [← hrights, ← Multiset.map_coe, ← Multiset.coe_add, Multiset.coe_singleton, add_comm,
      Multiset.singleton_add]
  · rw [← heq] at hreverse
    exact (isChain_and hchain hreverse).imp fun _ _ h => ⟨h.1.1, h.1.2, h.2.2⟩
  · rw [List.getLast?_append_of_ne_nil _ (List.cons_ne_nil _ _), List.getLast?_singleton,
      Option.map_some, htopKey]

/-! ## Batches of effects -/

/-- The ledger weighs what two sentinels that point at each other weigh. -/
structure WeighsList (P : Pointers κ ρ) (lo hi ll rr : κ) (s : Multiset (Option (Node ρ))) :
    Prop where
  lt : lo < hi
  right : weigh (rightWeight P) s = (stretch lo hi, {some (P.write hi, P.write rr)})
  left : weigh (leftWeight P) s
    = (stretch (OrderDual.toDual hi) (OrderDual.toDual lo), {some (P.write lo, P.write ll)})

/-- The sentinels.  Their outer pointers lead nowhere. -/
theorem weighsList_sentinels {lo hi ll rr : κ} (hlt : lo < hi) (hll : ¬ ll < lo) (hrr : ¬ hi < rr) :
    WeighsList P lo hi ll rr
      {some ⟨P.write lo, P.write ll, P.write hi⟩, some ⟨P.write hi, P.write lo, P.write rr⟩} where
  lt := hlt
  right := by
    have htop : rightLink P (some ⟨P.write hi, P.write lo, P.write rr⟩) = none := by
      simp [rightLink, hrr]
    rw [Multiset.insert_eq_cons, weigh_cons, weigh_singleton, rightWeight_node P hlt, rightWeight,
      weight_of_no_link htop, Prod.mk_add_mk, add_zero, zero_add]
    rfl
  left := by
    have hbottom : leftLink P (some ⟨P.write lo, P.write ll, P.write hi⟩) = none := by
      simp [leftLink, hll]
    rw [Multiset.insert_eq_cons, weigh_cons, weigh_singleton, leftWeight_node P hlt, leftWeight,
      weight_of_no_link hbottom, Prod.mk_add_mk, add_zero, zero_add]
    rfl

/-- **Batches keep the list**, in whatever way their effects feed each other. -/
theorem WeighsList.settles {lo hi ll rr : κ} {s s' : Multiset (Option (Node ρ))}
    {es : List (Effect (Option (Node ρ)))} (h : WeighsList P lo hi ll rr s)
    (hs : Settles s (Effect.total es) s') (hes : ∀ e ∈ es, Keeps e ∨ ∃ k, Inserts P k e) :
    WeighsList P lo hi ll rr s' where
  lt := h.lt
  right := by
    rw [hs.weigh_eq fun e he => (hes e he).elim (fun hk => hk.conserves _)
      fun ⟨_, hi⟩ => hi.conserves_right, h.right]
  left := by
    rw [hs.weigh_eq fun e he => (hes e he).elim (fun hk => hk.conserves _)
      fun ⟨_, hi⟩ => hi.conserves_left, h.left]

theorem WeighsList.exists_doublyLinked {lo hi ll rr : κ} {s : Multiset (Option (Node ρ))}
    (h : WeighsList P lo hi ll rr s) :
    ∃ l : List (Node κ), s = (l.map (written P) : Multiset (Option (Node ρ))) ∧
      DoublyLinked lo hi l :=
  SortedList.exists_doublyLinked h.lt h.right h.left

/-! ## Inside the list -/

section List

variable {lo hi k : κ} {l : List (Node κ)}

theorem DoublyLinked.pairwise (h : DoublyLinked lo hi l) :
    l.Pairwise fun a b => a.key < b.key :=
  pairwise_key_of_isChain (h.chain.imp fun _ _ h => h.1)

theorem DoublyLinked.nodup_keys (h : DoublyLinked lo hi l) : (l.map Node.key).Nodup :=
  List.pairwise_map.2 (h.pairwise.imp fun h => h.ne)

/-- **Gap.**  No key of the list lies between two nodes of which one points at the other. -/
theorem DoublyLinked.not_mem_of_gap (h : DoublyLinked lo hi l) {a b : Node κ} (ha : a ∈ l)
    (hb : b ∈ l) (hab : a.right = b.key) (hak : a.key < k) (hkb : k < b.key) :
    ∀ n ∈ l, n.key ≠ k := by
  obtain ⟨before, after, rfl⟩ := List.append_of_mem ha
  have hsorted := h.pairwise
  rw [List.pairwise_append] at hsorted
  obtain ⟨-, hafter, hbefore⟩ := hsorted
  have hafter' := List.pairwise_cons.1 hafter
  intro n hn
  rcases List.mem_append.1 hn with hn | hn
  · exact ((hbefore n hn a (List.mem_cons_self ..)).trans hak).ne
  rcases List.mem_cons.1 hn with rfl | hn
  · exact hak.ne
  -- the node after `a` has the key `a` points at, and all others are above it
  cases after with
  | nil => exact absurd hn List.not_mem_nil
  | cons c rest =>
      have hac : a.right = c.key := (List.isChain_append_cons_cons.1 h.chain).2.1.2.1
      have hkc : k < c.key := by rw [← hac, hab]; exact hkb
      rcases List.mem_cons.1 hn with rfl | hn
      · exact hkc.ne'
      · exact (hkc.trans ((List.pairwise_cons.1 hafter'.2).1 n hn)).ne'

/-- Two pairs of adjacent nodes around one key have the same keys. -/
theorem DoublyLinked.eq_of_gap (h : DoublyLinked lo hi l) {a b a' b' : Node κ} (ha : a ∈ l)
    (hb : b ∈ l) (ha' : a' ∈ l) (hb' : b' ∈ l) (hab : a.right = b.key) (hab' : a'.right = b'.key)
    (hak : a.key < k) (hkb : k < b.key) (hak' : a'.key < k) (hkb' : k < b'.key) :
    a.key = a'.key ∧ b.key = b'.key := by
  have hgap : ∀ {n}, n ∈ l → ¬ (a.key < n.key ∧ n.key < b.key) := fun hn hlt =>
    h.not_mem_of_gap ha hb hab hlt.1 hlt.2 _ hn rfl
  have hgap' : ∀ {n}, n ∈ l → ¬ (a'.key < n.key ∧ n.key < b'.key) := fun hn hlt =>
    h.not_mem_of_gap ha' hb' hab' hlt.1 hlt.2 _ hn rfl
  constructor
  · rcases lt_trichotomy a.key a'.key with hlt | heq | hlt
    · exact absurd ⟨hlt, hak'.trans hkb⟩ (hgap ha')
    · exact heq
    · exact absurd ⟨hlt, hak.trans hkb'⟩ (hgap' ha)
  · rcases lt_trichotomy b.key b'.key with hlt | heq | hlt
    · exact absurd ⟨hak'.trans hkb, hlt⟩ (hgap' hb)
    · exact heq
    · exact absurd ⟨hak.trans hkb', hlt⟩ (hgap hb')

/-- No key of the list lies outside its ends. -/
theorem DoublyLinked.mem_bounds (h : DoublyLinked lo hi l) {n : Node κ} (hn : n ∈ l) :
    lo ≤ n.key ∧ n.key ≤ hi := by
  have hsorted := h.pairwise
  obtain ⟨-, hhead, hlast⟩ := h
  constructor
  · cases l with
    | nil => cases hn
    | cons a rest =>
      obtain rfl : a.key = lo := by simpa using hhead
      rcases List.mem_cons.1 hn with rfl | hn
      · exact le_rfl
      · exact ((List.pairwise_cons.1 hsorted).1 n hn).le
  · obtain ⟨z, hz, rfl⟩ := Option.map_eq_some_iff.1 hlast
    rcases List.eq_nil_or_concat l with rfl | ⟨before, z', rfl⟩
    · cases hn
    · rw [List.concat_eq_append] at hn hz hsorted
      rw [List.getLast?_append, List.getLast?_singleton, Option.some_or] at hz
      obtain rfl : z' = z := Option.some.inj hz
      rcases List.mem_append.1 hn with hn | hn
      · exact ((List.pairwise_append.1 hsorted).2.2 n hn z' (List.mem_singleton_self _)).le
      · rw [List.mem_singleton.1 hn]

/-- A key between the ends of the list that is not in it has two neighbours. -/
theorem DoublyLinked.exists_gap (h : DoublyLinked lo hi l) (hlo : lo < k) (hhi : k < hi)
    (hk : ∀ n ∈ l, n.key ≠ k) :
    ∃ a ∈ l, ∃ b ∈ l, a.key < k ∧ k < b.key ∧ a.right = b.key ∧ b.left = a.key := by
  obtain ⟨hchain, hhead, hlast⟩ := h
  induction l generalizing lo with
  | nil => cases hhead
  | cons a rest ih =>
      obtain rfl : a.key = lo := by simpa using hhead
      cases rest with
      | nil =>
          obtain rfl : a.key = hi := by simpa using hlast
          exact absurd (hlo.trans hhi) (lt_irrefl _)
      | cons b rest =>
          obtain ⟨⟨-, hright, hleft⟩, hrest⟩ := List.isChain_cons_cons.1 hchain
          rcases lt_trichotomy k b.key with hkb | rfl | hbk
          · exact ⟨a, by simp, b, by simp, hlo, hkb, hright, hleft⟩
          · exact absurd rfl (hk b (by simp))
          · obtain ⟨x, hx, y, hy, hxy⟩ := ih hbk (fun n hn => hk n (List.mem_cons_of_mem _ hn))
              hrest rfl (by simpa using hlast)
            exact ⟨x, List.mem_cons_of_mem _ hx, y, List.mem_cons_of_mem _ hy, hxy⟩

end List

end SortedList
