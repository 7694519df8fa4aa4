import Mathlib.Data.Multiset.UnionInter
import SlotMachine.Ledger.Settlement

/-!
# Coins that are handed on

A ledger of coins, each of which comes from the spend of another one and is spent at most
once.  Some coins bear a baton: they can only be spent if they are legitimate, that is if
they come from a coin that bears it or from the launcher, and each spend of them creates
one legitimate coin.

* `Spends` — coins are spent one after another; `Spends.settles` is what this does to the
  ledger.
* `Ledger.WellFormed` — no coin is twice in the ledger, and none without its parent;
  `WellFormed.spends` says that it stays so.
* `Tip` — one unspent coin is legitimate, and no other.
* `Passes`, `Tip.passes` — **the baton is handed on from tip to tip**, whatever else is
  spent in between.
-/

namespace Baton

open Settlement

variable {C S : Type*}

/-- The coins that were spent, and those that were not. -/
structure Ledger (C : Type*) where
  spent : Multiset C
  unspent : Multiset C

section Spends

variable (coin : S → C) (created : S → Multiset C)

/-- A spend on the unspent coins. -/
def effect (s : S) : Effect C := ⟨{coin s}, created s⟩

/-- Coins are spent one after another.  A coin that was just created may be spent. -/
inductive Spends : Ledger C → List S → Ledger C → Prop where
  | nil (l : Ledger C) : Spends l [] l
  | cons {l l' : Ledger C} {s : S} {ss : List S} {rest : Multiset C} :
      l.unspent = coin s ::ₘ rest → Spends ⟨coin s ::ₘ l.spent, rest + created s⟩ ss l' →
      Spends l (s :: ss) l'

variable {coin created}

theorem Spends.settles {l l' : Ledger C} {ss : List S} (h : Spends coin created l ss l') :
    Settles l.unspent (Effect.total (ss.map (effect coin created))) l'.unspent := by
  induction h with
  | nil l => simp [Settles, Effect.none]
  | @cons l l' s ss rest hunspent _ ih =>
      unfold Settles at *
      rw [List.map_cons, Effect.consumed_total_cons, Effect.created_total_cons]
      have hcoin : l.unspent = {coin s} + rest := by rw [hunspent, Multiset.singleton_add]
      rw [hcoin, add_left_comm, ih, effect, add_assoc, add_assoc]

theorem Spends.spent_eq {l l' : Ledger C} {ss : List S} (h : Spends coin created l ss l') :
    l'.spent = l.spent + (ss.map coin : List C) := by
  induction h with
  | nil l => simp
  | @cons l l' s ss rest _ _ ih =>
      rw [ih, List.map_cons, ← Multiset.cons_coe, Multiset.cons_add, Multiset.add_cons]

/-- A coin is spent if it was not, or is created by a spend before. -/
theorem Spends.mem_of_mem {l l' : Ledger C} {ss : List S} (h : Spends coin created l ss l') {s : S}
    (hs : s ∈ ss) : coin s ∈ l.unspent ∨ ∃ s' ∈ ss, coin s ∈ created s' := by
  induction h with
  | nil l => exact absurd hs List.not_mem_nil
  | @cons l l' s' ss rest hunspent _ ih =>
      rcases List.mem_cons.1 hs with rfl | hs
      · exact Or.inl (hunspent ▸ Multiset.mem_cons_self _ _)
      · rcases ih hs with hmem | ⟨s'', hs'', hmem⟩
        · rcases Multiset.mem_add.1 hmem with hmem | hmem
          · exact Or.inl (hunspent ▸ Multiset.mem_cons_of_mem hmem)
          · exact Or.inr ⟨s', List.mem_cons_self, hmem⟩
        · exact Or.inr ⟨s'', List.mem_cons_of_mem _ hs'', hmem⟩

end Spends

/-! ## No coin twice -/

section WellFormed

variable (childOf : C → C → Prop) (orphan : C → Prop)

/-- A coin has one parent, or none. -/
structure Ancestry : Prop where
  functional : ∀ c p p', childOf c p → childOf c p' → p = p'
  orphan : ∀ c p, orphan c → ¬ childOf c p

/-- No coin is in the ledger twice, and the parent of every coin was spent, except for the
coins that have none. -/
structure Ledger.WellFormed (l : Ledger C) : Prop where
  nodup : (l.spent + l.unspent).Nodup
  origin : ∀ c ∈ l.spent + l.unspent, orphan c ∨ ∃ p ∈ l.spent, childOf c p

/-- A spend creates its own children, none of them twice. -/
structure Begets (coin : C) (created : Multiset C) : Prop where
  nodup : created.Nodup
  child : ∀ c ∈ created, childOf c coin

variable {childOf orphan} {l l' : Ledger C}

theorem Ledger.WellFormed.not_spent (h : l.WellFormed childOf orphan) {c : C}
    (hc : c ∈ l.unspent) : c ∉ l.spent :=
  fun hspent => (Multiset.disjoint_left.1 (Multiset.nodup_add.1 h.nodup).2.2) hspent hc

/-- The parent of a coin was spent. -/
theorem Ledger.WellFormed.parent_spent (hancestry : Ancestry childOf orphan)
    (h : l.WellFormed childOf orphan) {c p : C} (hc : c ∈ l.spent + l.unspent)
    (hchild : childOf c p) : p ∈ l.spent := by
  rcases h.origin c hc with horphan | ⟨p', hp', hchild'⟩
  · exact absurd hchild (hancestry.orphan c p horphan)
  · rwa [hancestry.functional c p p' hchild hchild']

/-- A coin that is being created is new. -/
theorem Ledger.WellFormed.not_mem_of_child (hancestry : Ancestry childOf orphan)
    (h : l.WellFormed childOf orphan) {c p : C} (hp : p ∈ l.unspent) (hchild : childOf c p) :
    c ∉ l.spent + l.unspent :=
  fun hc => h.not_spent hp (h.parent_spent hancestry hc hchild)

/-- **One spend keeps the ledger well-formed.** -/
theorem Ledger.WellFormed.spend (hancestry : Ancestry childOf orphan)
    (h : l.WellFormed childOf orphan) {c : C} {rest new : Multiset C}
    (hunspent : l.unspent = c ::ₘ rest) (hnew : Begets childOf c new) :
    Ledger.WellFormed childOf orphan ⟨c ::ₘ l.spent, rest + new⟩ := by
  have hc : c ∈ l.unspent := hunspent ▸ Multiset.mem_cons_self _ _
  have hsame : c ::ₘ l.spent + (rest + new) = (l.spent + l.unspent) + new := by
    rw [hunspent, Multiset.cons_add, Multiset.add_cons, Multiset.cons_add, add_assoc]
  constructor
  · show (c ::ₘ l.spent + (rest + new)).Nodup
    rw [hsame]
    refine Multiset.nodup_add.2 ⟨h.nodup, hnew.nodup, ?_⟩
    exact Multiset.disjoint_right.2 fun hd => h.not_mem_of_child hancestry hc (hnew.child _ hd)
  · show ∀ d ∈ c ::ₘ l.spent + (rest + new), orphan d ∨ ∃ p ∈ c ::ₘ l.spent, childOf d p
    intro d hd
    rw [hsame] at hd
    rcases Multiset.mem_add.1 hd with hd | hd
    · exact (h.origin d hd).imp_right fun ⟨p, hp, hchild⟩ =>
        ⟨p, Multiset.mem_cons_of_mem hp, hchild⟩
    · exact Or.inr ⟨c, Multiset.mem_cons_self _ _, hnew.child d hd⟩

/-- New coins without a parent keep it well-formed. -/
theorem Ledger.WellFormed.reward (h : l.WellFormed childOf orphan) {new : Multiset C}
    (hnew : new.Nodup) (hfresh : ∀ c ∈ new, c ∉ l.spent + l.unspent)
    (horphan : ∀ c ∈ new, orphan c) :
    Ledger.WellFormed childOf orphan ⟨l.spent, l.unspent + new⟩ := by
  constructor
  · show (l.spent + (l.unspent + new)).Nodup
    rw [← add_assoc]
    exact Multiset.nodup_add.2 ⟨h.nodup, hnew, Multiset.disjoint_right.2 fun hc => hfresh _ hc⟩
  · show ∀ c ∈ l.spent + (l.unspent + new), orphan c ∨ ∃ p ∈ l.spent, childOf c p
    intro c hc
    rw [← add_assoc] at hc
    rcases Multiset.mem_add.1 hc with hc | hc
    · exact h.origin c hc
    · exact Or.inl (horphan c hc)

variable {coin : S → C} {created : S → Multiset C}

/-- **So do all spends.** -/
theorem Ledger.WellFormed.spends (hancestry : Ancestry childOf orphan) {ss : List S}
    (hspends : Spends coin created l ss l')
    (hss : ∀ s ∈ ss, Begets childOf (coin s) (created s)) (h : l.WellFormed childOf orphan) :
    l'.WellFormed childOf orphan := by
  induction hspends with
  | nil l => exact h
  | @cons l l' s ss rest hunspent _ ih =>
      exact ih (fun s' hs' => hss s' (List.mem_cons_of_mem _ hs'))
        (h.spend hancestry hunspent (hss s List.mem_cons_self))

/-- A coin that is spent has a parent, unless it is an orphan. -/
theorem Ledger.WellFormed.exists_parent {ss : List S} (h : l.WellFormed childOf orphan)
    (hspends : Spends coin created l ss l')
    (hss : ∀ s ∈ ss, Begets childOf (coin s) (created s)) {s : S} (hs : s ∈ ss) :
    orphan (coin s) ∨ ∃ p, childOf (coin s) p := by
  rcases hspends.mem_of_mem hs with hmem | ⟨s', hs', hmem⟩
  · exact (h.origin _ (Multiset.mem_add.2 (Or.inr hmem))).imp_right fun ⟨p, _, hp⟩ => ⟨p, hp⟩
  · exact Or.inr ⟨_, (hss s' hs').child _ hmem⟩

end WellFormed

/-! ## The only coin of its kind -/

section Only

variable {legit : C → Prop} {tip c : C} {s t : Multiset C}

/-- One coin is legitimate, and no other one. -/
def Only (legit : C → Prop) (tip : C) (s : Multiset C) : Prop :=
  ∃ rest, s = tip ::ₘ rest ∧ legit tip ∧ ∀ c ∈ rest, ¬ legit c

theorem Only.mem (h : Only legit tip s) : tip ∈ s := by
  obtain ⟨rest, rfl, -, -⟩ := h
  exact Multiset.mem_cons_self _ _

theorem Only.legit_tip (h : Only legit tip s) : legit tip := by
  obtain ⟨-, -, htip, -⟩ := h
  exact htip

theorem Only.eq (h : Only legit tip s) (hc : c ∈ s) (hlegit : legit c) : c = tip := by
  obtain ⟨rest, rfl, -, hrest⟩ := h
  rcases Multiset.mem_cons.1 hc with rfl | hc
  · rfl
  · exact absurd hlegit (hrest c hc)

/-- If no coin is there twice, it is enough that no other coin is legitimate. -/
theorem only_of_nodup (hs : s.Nodup) (htip : tip ∈ s) (hlegit : legit tip)
    (h : ∀ c ∈ s, legit c → c = tip) : Only legit tip s := by
  obtain ⟨rest, rfl⟩ := Multiset.exists_cons_of_mem htip
  refine ⟨rest, rfl, hlegit, fun c hc hc' => (Multiset.nodup_cons.1 hs).1 ?_⟩
  rwa [← h c (Multiset.mem_cons_of_mem hc) hc']

theorem Only.add (h : Only legit tip s) (ht : ∀ c ∈ t, ¬ legit c) : Only legit tip (s + t) := by
  obtain ⟨rest, rfl, htip, hrest⟩ := h
  refine ⟨rest + t, Multiset.cons_add _ _ _, htip, ?_⟩
  intro c hc
  rcases Multiset.mem_add.1 hc with hc | hc
  · exact hrest c hc
  · exact ht c hc

/-- Without a coin that is not legitimate. -/
theorem Only.of_cons (h : Only legit tip (c ::ₘ s)) (hc : ¬ legit c) : Only legit tip s := by
  obtain ⟨rest, hcons, htip, hrest⟩ := h
  have hne : c ≠ tip := by
    rintro rfl
    exact hc htip
  rcases Multiset.cons_eq_cons.1 hcons with ⟨rfl, -⟩ | ⟨-, u, rfl, rfl⟩
  · exact absurd rfl hne
  · exact ⟨u, rfl, htip, fun d hd => hrest d (Multiset.mem_cons_of_mem hd)⟩

/-- Without the tip, none is legitimate. -/
theorem Only.not_legit (h : Only legit tip (tip ::ₘ s)) : ∀ c ∈ s, ¬ legit c := by
  obtain ⟨rest, hcons, -, hrest⟩ := h
  rw [(Multiset.cons_inj_right tip).1 hcons]
  exact hrest

end Only

/-! ## The tip -/

section Tip

variable (childOf : C → C → Prop) (orphan bears legit good : C → Prop) (launcher : C)

/-- What makes coins legitimate: they bear the baton, and come from one that does or from
the launcher. -/
structure Legitimacy : Prop where
  bears_of_legit : ∀ c, legit c → bears c
  parent : ∀ c p, childOf c p → legit c → bears p ∨ p = launcher

/-- What a spend of a coin with the baton does: the coin is legitimate, and if it is a good
one, then one coin that is created is legitimate and good. -/
def Hands (coin : C) (created : Multiset C) : Prop :=
  bears coin → legit coin ∧ (good coin → ∃ next, good next ∧ Only legit next created)

/-- The launcher was spent, and one unspent coin is legitimate.  It is good. -/
structure Tip (l : Ledger C) (tip : C) : Prop where
  launched : launcher ∈ l.spent
  only : Only legit tip l.unspent
  good : good tip

variable (coin : S → C) (created : S → Multiset C)

/-- The baton is handed on, from one tip to another, while other coins are spent, too. -/
inductive Passes : C → List S → C → Prop where
  | nil (tip : C) : Passes tip [] tip
  | other {s : S} {ss : List S} {tip tip' : C} :
      ¬ bears (coin s) → Passes tip ss tip' → Passes tip (s :: ss) tip'
  | hand {s : S} {ss : List S} {next tip' : C} :
      bears (coin s) → Only legit next (created s) → Passes next ss tip' →
      Passes (coin s) (s :: ss) tip'

variable {childOf orphan bears legit good launcher coin created} {l l' : Ledger C} {tip : C}

/-- The spend of another coin leaves the tip alone. -/
theorem Tip.other (hlegit : Legitimacy childOf bears legit launcher)
    (hl : l.WellFormed childOf orphan) (h : Tip legit good launcher l tip) {c : C}
    {rest new : Multiset C} (hunspent : l.unspent = c ::ₘ rest) (hnew : Begets childOf c new)
    (hc : ¬ bears c) :
    Tip legit good launcher ⟨c ::ₘ l.spent, rest + new⟩ tip where
  launched := Multiset.mem_cons_of_mem h.launched
  good := h.good
  only := by
    have honly : Only legit tip rest :=
      Only.of_cons (hunspent ▸ h.only) fun hc' => hc (hlegit.bears_of_legit c hc')
    refine honly.add fun d hd hd' => ?_
    rcases hlegit.parent d c (hnew.child d hd) hd' with hbears | rfl
    · exact hc hbears
    · -- the launcher is spent only once
      exact hl.not_spent (hunspent ▸ Multiset.mem_cons_self _ _) h.launched

/-- The spend of a coin with the baton is the spend of the tip, and makes the next one. -/
theorem Tip.hand (h : Tip legit good launcher l tip) {c : C} {rest new : Multiset C}
    (hunspent : l.unspent = c ::ₘ rest) (hc : legit c)
    (hnew : good c → ∃ next, good next ∧ Only legit next new) :
    c = tip ∧ ∃ next, Only legit next new ∧
      Tip legit good launcher ⟨c ::ₘ l.spent, rest + new⟩ next := by
  have htip : c = tip := h.only.eq (hunspent ▸ Multiset.mem_cons_self _ _) hc
  obtain ⟨next, hgood, hnext⟩ := hnew (htip ▸ h.good)
  have honly := h.only
  rw [hunspent, ← htip] at honly
  refine ⟨htip, next, hnext, Multiset.mem_cons_of_mem h.launched, ?_, hgood⟩
  show Only legit next (rest + new)
  rw [add_comm]
  exact hnext.add honly.not_legit

/-- Other new coins leave the tip alone. -/
theorem Tip.reward (h : Tip legit good launcher l tip) {new : Multiset C}
    (hnew : ∀ c ∈ new, ¬ legit c) : Tip legit good launcher ⟨l.spent, l.unspent + new⟩ tip :=
  ⟨h.launched, h.only.add hnew, h.good⟩

/-- **The baton is handed on from tip to tip.** -/
theorem Tip.passes (hlegit : Legitimacy childOf bears legit launcher)
    (hancestry : Ancestry childOf orphan) {ss : List S} (hspends : Spends coin created l ss l')
    (hss : ∀ s ∈ ss, Begets childOf (coin s) (created s) ∧
      Hands bears legit good (coin s) (created s))
    (hl : l.WellFormed childOf orphan) (h : Tip legit good launcher l tip) :
    ∃ tip', Passes bears legit coin created tip ss tip' ∧ Tip legit good launcher l' tip' := by
  induction hspends generalizing tip with
  | nil l => exact ⟨tip, .nil tip, h⟩
  | @cons l l' s ss rest hunspent _ ih =>
      obtain ⟨hbegets, hhands⟩ := hss s List.mem_cons_self
      have hrest := fun s' hs' => hss s' (List.mem_cons_of_mem _ hs')
      have hl' := hl.spend hancestry hunspent hbegets
      by_cases hbears : bears (coin s)
      · obtain ⟨hcoin, hnew⟩ := hhands hbears
        obtain ⟨rfl, next, hnext, htip⟩ := h.hand hunspent hcoin hnew
        obtain ⟨tip', hpasses, htip'⟩ := ih hrest hl' htip
        exact ⟨tip', .hand hbears hnext hpasses, htip'⟩
      · obtain ⟨tip', hpasses, htip'⟩ :=
          ih hrest hl' (h.other hlegit hl hunspent hbegets hbears)
        exact ⟨tip', .other hbears hpasses, htip'⟩

end Tip

end Baton
