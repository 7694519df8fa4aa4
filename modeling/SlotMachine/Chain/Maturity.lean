import SlotMachine.Chain.Consensus

/-!
# The age of coins

* `Block.Creates`, `Follows.exists_creates` — **every coin of a chain was there before it or
  was created by one of its blocks**.
* `Follows.spent_nodup` — **no coin is spent twice**.
* `Timed`, `Timed.matured` — relative time locks: a coin that asserts one was created by a
  block that is far enough below.
-/

namespace SlotMachine

open Lineage Settlement

/-- A relative lock of a coin that was created at the height `born`. -/
def Reading.ReachedSince (born now : ℕ) : Reading → Prop
  | .invalid => False
  | .negative => True
  | .tooLarge => False
  | .value n => born + n ≤ now

namespace Consensus

/-- The block creates the coin. -/
def Block.Creates (b : Block) (c : Coin) : Prop := c ∈ b.rewards ∨ ∃ s ∈ b.spends, c ∈ s.created

/-- Relative locks count from the height at which the coin was created, which is above the
height that the locks of its block refer to. -/
structure Timed (born : Coin → ℕ) (blocks : List Block) : Prop where
  born_lt : ∀ b ∈ blocks, ∀ c, b.Creates c → b.height < born c
  reached : ∀ b ∈ blocks, ∀ s ∈ b.spends, ∀ height, .assertHeightRelative height ∈ s.conditions →
    (readUint 4 height).ReachedSince (born s.coin) b.height

section

variable {M : Machine} {l₀ l l' : Ledger} {b : Block} {blocks : List Block}

/-- What is unspent after a block. -/
theorem Block.Valid.mem_unspent (h : b.Valid M l l') {c : Coin} (hc : c ∈ l'.unspent) :
    c ∈ l.unspent ∨ b.Creates c := by
  rcases h.spends.settles.mem_or_mem hc with hmem | hmem
  · rcases Multiset.mem_add.1 hmem with hold | hreward
    · exact Or.inl hold
    · exact Or.inr (Or.inl (Multiset.mem_coe.1 hreward))
  · obtain ⟨e, he, hcreated⟩ := Effect.mem_created_total.1 hmem
    obtain ⟨s, hs, rfl⟩ := List.mem_map.1 he
    exact Or.inr (Or.inr ⟨s, hs, hcreated⟩)

/-- What a block spends. -/
theorem Block.Valid.mem_spent (h : b.Valid M l l') {s : Spend} (hs : s ∈ b.spends) :
    s.coin ∈ l.unspent ∨ b.Creates s.coin := by
  rcases h.spends.mem_of_mem hs with hmem | ⟨s', hs', hmem⟩
  · rcases Multiset.mem_add.1 hmem with hold | hreward
    · exact Or.inl hold
    · exact Or.inr (Or.inl (Multiset.mem_coe.1 hreward))
  · exact Or.inr (Or.inr ⟨s', hs', hmem⟩)

/-- **Every unspent coin was there before, or was created by a block.** -/
theorem Follows.exists_creates (h : Follows M l₀ blocks l) {c : Coin} (hc : c ∈ l.unspent) :
    c ∈ l₀.unspent ∨ ∃ b ∈ blocks, b.Creates c := by
  induction h with
  | start => exact Or.inl hc
  | @next past l l' b _ hb ih =>
      rcases hb.mem_unspent hc with hold | hcreates
      · rcases ih hold with hold | ⟨b', hb', hcreates⟩
        · exact Or.inl hold
        · exact Or.inr ⟨b', List.mem_append_left _ hb', hcreates⟩
      · exact Or.inr ⟨b, List.mem_append_right _ (List.mem_singleton_self b), hcreates⟩

/-- **So was every coin that is spent.** -/
theorem Follows.exists_creates_of_spent (h : Follows M l₀ blocks l) (hb : b ∈ blocks) {s : Spend}
    (hs : s ∈ b.spends) : s.coin ∈ l₀.unspent ∨ ∃ b' ∈ blocks, b'.Creates s.coin := by
  induction h with
  | start => exact absurd hb List.not_mem_nil
  | @next past l l' b₁ hpast hb₁ ih =>
      rcases List.mem_append.1 hb with hb | hb
      · rcases ih hb with hold | ⟨b', hb', hcreates⟩
        · exact Or.inl hold
        · exact Or.inr ⟨b', List.mem_append_left _ hb', hcreates⟩
      · obtain rfl := List.mem_singleton.1 hb
        rcases hb₁.mem_spent hs with hold | hcreates
        · rcases hpast.exists_creates hold with hold | ⟨b', hb', hcreates⟩
          · exact Or.inl hold
          · exact Or.inr ⟨b', List.mem_append_left _ hb', hcreates⟩
        · exact Or.inr ⟨b, List.mem_append_right _ (List.mem_singleton_self b), hcreates⟩

/-- The coins that a chain spends. -/
def spentCoins (blocks : List Block) : List Coin :=
  blocks.flatMap fun b => b.spends.map Spend.coin

theorem Follows.spent_eq (h : Follows M l₀ blocks l) :
    l.spent = l₀.spent + (spentCoins blocks : Multiset Coin) := by
  induction h with
  | start => simp [spentCoins]
  | @next past l l' b _ hb ih =>
      have hspent := hb.spends.spent_eq
      rw [hspent, ih, spentCoins, spentCoins, List.flatMap_append, ← Multiset.coe_add, add_assoc,
        List.flatMap_singleton]

/-- **No coin is spent twice.** -/
theorem Follows.spent_nodup (hH : M.hash.CollisionFree) (h : Follows M l₀ blocks l)
    (hl : l₀.WellFormed (ChildOf M.hash) (Orphan M.hash)) : (spentCoins blocks).Nodup := by
  have hnodup := (Multiset.nodup_add.1 (h.wellFormed hH hl).nodup).1
  rw [h.spent_eq] at hnodup
  exact Multiset.coe_nodup.1 (Multiset.nodup_add.1 hnodup).2.1

/-- **A coin with a relative lock is old enough.** -/
theorem Timed.matured {born : Coin → ℕ} (htimed : Timed born blocks) (hb : b ∈ blocks) {s : Spend}
    (hs : s ∈ b.spends) {n : ℤ} (hn : 0 ≤ n)
    (hlock : .assertHeightRelative (.ofInt n) ∈ s.conditions) :
    ∀ b₀ ∈ blocks, b₀.Creates s.coin → (b₀.height : ℤ) + n < b.height := by
  intro b₀ hb₀ hcreates
  have hborn := htimed.born_lt b₀ hb₀ s.coin hcreates
  have hreached := htimed.reached b hb s hs (.ofInt n) hlock
  rw [readUint_ofInt, if_neg (not_lt.2 hn)] at hreached
  split at hreached
  · have hle : born s.coin + n.toNat ≤ b.height := hreached
    omega
  · exact hreached.elim

end

end Consensus

end SlotMachine
