import SlotMachine.Catalog.Refund
import SlotMachine.Catalog.Register
import SlotMachine.Chain.ActionLayer
import SlotMachine.Puzzles.DelegatedState

/-!
# CATalog: the registry

The three actions together.  Every one of them has a lawful footprint, and a
block settles the footprints of its actions on the level of slot values.

* `Action.run` — the actions of the registry.
* `Explains` — what a step computed, and its footprint; `exists_explains`.
* `exists_settlement` — **a block settles the footprints of its steps**, and so
  it settles what they do to the slots (`settles_rewrites`).
-/

namespace SlotMachine.Catalog

open Settlement
open Rewriting (Rewrite)

/-- The actions of the registry. -/
inductive Action where
  | register
  | refund
  | delegatedState
  deriving DecidableEq, Repr

/-- Run an action. -/
def Action.run (M : Machine) (K : Constants) : Actions Action
  | register => Catalog.register M K
  | refund => Catalog.refund M K
  | delegatedState => SlotMachine.delegatedState M K.singletonModHash K.otherSingletonStructHash

/-! ## Footprints of steps -/

/-- How an action came to its conditions, and its footprint. -/
inductive Explains (M : Machine) (K : Constants) (truth solution : Clvm) :
    Action → List Condition → Footprint → Prop where
  | register (r : RegisterRun M K truth solution) :
      Explains M K truth solution .register r.conditions r.footprint
  | refund (r : RefundRun M K truth solution) :
      Explains M K truth solution .refund r.conditions r.footprint
  | delegatedState (stateHash sender : Bytes) :
      Explains M K truth solution .delegatedState
        [.receiveMessage puzzlePuzzle (.tagged 's' stateHash) [.atom sender]] ⟨[], [], []⟩

variable {M : Machine} {K : Constants}

/-- Every step can be explained. -/
theorem exists_explains {action : Action} {truth solution truth' : Clvm} {cs : List Condition}
    (h : action.run M K truth solution = some (truth', cs)) :
    ∃ f, Explains M K truth solution action cs f := by
  cases action with
  | register =>
      obtain ⟨r, hr⟩ := register_eq_some.1 h
      obtain ⟨-, rfl⟩ := Prod.mk.inj hr
      exact ⟨_, .register r⟩
  | refund =>
      obtain ⟨r, hr⟩ := refund_eq_some.1 h
      obtain ⟨-, rfl⟩ := Prod.mk.inj hr
      exact ⟨_, .refund r⟩
  | delegatedState =>
      obtain ⟨e, s, newState, inner, d, sender, -, -, -, -, hout⟩ := delegatedState_eq_some.1 h
      obtain ⟨-, rfl⟩ := Prod.mk.inj hout
      exact ⟨_, .delegatedState d sender⟩

/-- The TAIL a call registers, if it is a registration. -/
def Call.registeredTail (c : Call Action) : Option Clvm :=
  if c.action = .register then (RegisterSolution.ofClvm? c.solution).map fun s => s.other.tailHash
  else none

section

variable {action : Action} {truth solution : Clvm} {cs : List Condition} {f : Footprint}

/-- **The conditions of a step spend and create the coins of its footprint.** -/
theorem Explains.matches (h : Explains M K truth solution action cs f) : f.Matches M.hash K cs := by
  cases h with
  | register r => exact r.footprint_matches
  | refund r => exact r.footprint_matches
  | delegatedState d sender => exact ⟨represents_zero _, represents_zero _⟩

/-- **The footprint of every step is lawful.** -/
theorem Explains.lawful (h : Explains M K truth solution action cs f) : f.Lawful := by
  cases h with
  | register r => exact r.footprint_lawful
  | refund r => exact r.footprint_lawful
  | delegatedState d sender => exact Footprint.lawful_empty

theorem RegisterRun.registeredTail (r : RegisterRun M K truth solution) :
    Call.registeredTail ⟨.register, solution⟩ = some r.s.other.tailHash := by
  rw [Call.registeredTail, if_pos rfl, RegisterSolution.ofClvm?_eq_some.2 r.solution_eq]
  rfl

/-- Exactly the registrations add a slot, and its key is the TAIL of the solution. -/
theorem Explains.inserted_key (h : Explains M K truth solution action cs f) :
    f.inserted.map keyOf = (Call.registeredTail ⟨action, solution⟩).toList.map some := by
  cases h with
  | register r => rw [r.registeredTail]; rfl
  | refund r =>
      rw [RefundRun.footprint]
      split <;> rfl
  | delegatedState d sender => rfl

/-- Anything but a registration leaves keys and neighbours as they are. -/
theorem Explains.nodeOf_eq (h : Explains M K truth solution action cs f)
    (ha : action ≠ .register) :
    f.inserted = [] ∧ f.prelaunched = [] ∧ ∀ m ∈ f.moves, nodeOf m.2 = nodeOf m.1 := by
  cases h with
  | register r => exact absurd rfl ha
  | refund r =>
      rw [RefundRun.footprint]
      split
      · refine ⟨rfl, rfl, fun m hm => ?_⟩
        obtain ⟨n, c, rfl⟩ := RefundRun.mem_kept hm
        exact nodeOf_counter_congr ..
      · exact ⟨rfl, rfl, fun m hm => absurd hm List.not_mem_nil⟩
  | delegatedState d sender => exact ⟨rfl, rfl, fun m hm => absurd hm List.not_mem_nil⟩

end

/-- The footprints of the steps of a block. -/
def Footprints (M : Machine) (K : Constants) (steps : List (Step Action)) (fs : List Footprint) :
    Prop :=
  List.Forall₂ (fun s f =>
    Explains M K s.truth s.call.solution s.call.action s.conditions f) steps fs

/-- The TAILs registered by the steps of a block. -/
def registeredTails (steps : List (Step Action)) : List Clvm :=
  steps.filterMap fun s => Call.registeredTail s.call

section

variable {steps : List (Step Action)} {fs : List Footprint}

theorem Footprints.inserted_keys (h : Footprints M K steps fs) :
    (fs.flatMap Footprint.inserted).map keyOf = (registeredTails steps).map some := by
  induction h with
  | nil => rfl
  | @cons s f steps fs hs _ ih =>
      rw [List.flatMap_cons, List.map_append, hs.inserted_key, ih, registeredTails, registeredTails,
        List.filterMap_cons]
      cases Call.registeredTail s.call <;> rfl

theorem Footprints.exists_mem (h : Footprints M K steps fs) {f : Footprint} (hf : f ∈ fs) :
    ∃ s ∈ steps, Explains M K s.truth s.call.solution s.call.action s.conditions f := by
  induction h with
  | nil => exact absurd hf List.not_mem_nil
  | @cons s f' steps fs hs _ ih =>
      rcases List.mem_cons.1 hf with rfl | hf
      · exact ⟨s, List.mem_cons_self .., hs⟩
      · obtain ⟨s', hs', h'⟩ := ih hf
        exact ⟨s', List.mem_cons_of_mem _ hs', h'⟩

theorem Footprints.exists_mem_of_step (h : Footprints M K steps fs) {s : Step Action}
    (hs : s ∈ steps) :
    ∃ f ∈ fs, Explains M K s.truth s.call.solution s.call.action s.conditions f := by
  induction h with
  | nil => exact absurd hs List.not_mem_nil
  | @cons s' f steps fs hs' _ ih =>
      rcases List.mem_cons.1 hs with rfl | hs
      · exact ⟨f, List.mem_cons_self .., hs'⟩
      · obtain ⟨f', hf', h'⟩ := ih hs
        exact ⟨f', List.mem_cons_of_mem _ hf', h'⟩

theorem Footprints.lawful (h : Footprints M K steps fs) : ∀ f ∈ fs, f.Lawful := by
  intro f hf
  obtain ⟨s, -, hs⟩ := h.exists_mem hf
  exact hs.lawful

theorem Footprints.bumps (h : Footprints M K steps fs) :
    ∀ g ∈ fs.map Footprint.rewrite, g.Bumps keyOf counterOf := by
  intro g hg
  obtain ⟨f, hf, rfl⟩ := List.mem_map.1 hg
  exact (h.lawful f hf).bumps_rewrite

/-- Every block has footprints. -/
theorem exists_footprints {r r' : Registry} {b : Block Action}
    (h : BlockStep (Action.run M K) r b steps r') : ∃ fs, Footprints M K steps fs := by
  have hall : ∀ s ∈ steps, ∃ f, Explains M K s.truth s.call.solution s.call.action s.conditions f :=
    fun s hs => exists_explains (h.run_eq hs)
  clear h
  induction steps with
  | nil => exact ⟨[], .nil⟩
  | cons s steps ih =>
      obtain ⟨f, hf⟩ := hall s (List.mem_cons_self ..)
      obtain ⟨fs, hfs⟩ := ih fun s' hs' => hall s' (List.mem_cons_of_mem _ hs')
      exact ⟨f :: fs, .cons hf hfs⟩

end

/-! ## Settling a block -/

/-- The slots among some coins. -/
def slotsOf (items : Multiset Item) : Multiset Clvm :=
  items.filterMap fun
    | .slot v => some v
    | .prelauncher _ => none

theorem mem_slotsOf {items : Multiset Item} {v : Clvm} : v ∈ slotsOf items ↔ .slot v ∈ items := by
  rw [slotsOf, Multiset.mem_filterMap]
  constructor
  · rintro ⟨i, hi, h⟩
    cases i with
    | slot w => obtain rfl := Option.some.inj h; exact hi
    | prelauncher w => cases h
  · intro h; exact ⟨_, h, rfl⟩

/-- The coins of a registry. -/
def Behind (H : HashOracle) (K : Constants) (items : Multiset Item) (r : Registry) : Prop :=
  Represents (Item.coin H K) items r.live

/-- The view of the slots. -/
def slotView : Multiset Item →+ Multiset Clvm where
  toFun := slotsOf
  map_zero' := rfl
  map_add' _ _ := Multiset.filterMap_add ..

@[simp] theorem slotsOf_coe_slot (vs : List Clvm) :
    slotsOf (vs.map Item.slot : List Item) = (vs : Multiset Clvm) := by
  induction vs with
  | nil => rfl
  | cons v vs ih => exact congrArg (v ::ₘ ·) ih

@[simp] theorem slotsOf_coe_prelauncher (vs : List Clvm) :
    slotsOf (vs.map Item.prelauncher : List Item) = 0 := by
  induction vs with
  | nil => rfl
  | cons v vs ih => exact ih

theorem map_slotView_effect (f : Footprint) : f.effect.map slotView = f.rewrite.effect := by
  refine congrArg₂ Effect.mk ?_ ?_
  · have hconsumed : f.effect.consumed = ((f.moves.map Prod.fst).map Item.slot : List Item) := by
      rw [List.map_map]; rfl
    exact (congrArg slotsOf hconsumed).trans (slotsOf_coe_slot _)
  · have hcreated : f.effect.created
        = ((f.moves.map Prod.snd ++ f.inserted).map Item.slot : List Item)
          + (f.prelaunched.map Item.prelauncher : List Item) := by
      rw [Multiset.coe_add, List.map_append, List.map_map]; rfl
    refine (congrArg slotView hcreated).trans ((map_add slotView _ _).trans ?_)
    exact (congrArg₂ (· + ·) (slotsOf_coe_slot _) (slotsOf_coe_prelauncher _)).trans (add_zero _)

/-- The coins of a block are those of its footprints. -/
theorem Footprints.represents {steps : List (Step Action)} {fs : List Footprint}
    (h : Footprints M K steps fs) :
    Represents (Item.coin M.hash K) (Effect.total (fs.map Footprint.effect)).consumed
        (Effect.total (steps.map Step.effect)).consumed ∧
      Represents (Item.coin M.hash K) (Effect.total (fs.map Footprint.effect)).created
        (Effect.total (steps.map Step.effect)).created := by
  induction h with
  | nil => exact ⟨represents_zero _, represents_zero _⟩
  | @cons s f steps fs hs _ ih =>
      simp only [List.map_cons, Effect.consumed_total_cons, Effect.created_total_cons]
      exact ⟨hs.matches.consumed.add ih.1, hs.matches.created.add ih.2⟩

section

variable {items items' : Multiset Item} {fs : List Footprint}

/-- **A block settles the footprints of its steps.** -/
theorem exists_settlement (hH : M.hash.CollisionFree)
    (hK : K.slot1stCurryHash ≠ K.uniquenessPrelauncher1stCurryHash) {r r' : Registry}
    {b : Block Action} {steps : List (Step Action)} (h : BlockStep (Action.run M K) r b steps r')
    (hfs : Footprints M K steps fs) (hitems : Behind M.hash K items r) :
    ∃ items', Behind M.hash K items' r' ∧
      Settles items (Effect.total (fs.map Footprint.effect)) items' :=
  hitems.settle (Item.coin_injOnDomain hH hK) hfs.represents.1 hfs.represents.2 h.settles

/-- The coins of a registry determine the slots behind them. -/
theorem Behind.unique (hH : M.hash.CollisionFree)
    (hK : K.slot1stCurryHash ≠ K.uniquenessPrelauncher1stCurryHash) {r : Registry}
    (h : Behind M.hash K items r) (h' : Behind M.hash K items' r) : items = items' :=
  le_antisymm (h.le_of_le (Item.coin_injOnDomain hH hK) h' le_rfl)
    (h'.le_of_le (Item.coin_injOnDomain hH hK) h le_rfl)

/-- **The slots settle as rewritten values.** -/
theorem settles_rewrites (h : Settles items (Effect.total (fs.map Footprint.effect)) items') :
    Settles (slotsOf items) (Effect.total ((fs.map Footprint.rewrite).map Rewrite.effect))
      (slotsOf items') := by
  have hmap := h.map slotView
  rw [List.map_map] at hmap ⊢
  have hcongr : fs.map (Effect.map slotView ∘ Footprint.effect)
      = fs.map (Rewrite.effect ∘ Footprint.rewrite) :=
    List.map_congr_left fun f _ => map_slotView_effect f
  rw [hcongr] at hmap
  exact hmap

end

end SlotMachine.Catalog
