import SlotMachine.Chain.ActionLayer
import SlotMachine.Puzzles.DelegatedState
import SlotMachine.Xchandles.Expire
import SlotMachine.Xchandles.Refund
import SlotMachine.Xchandles.Register
import SlotMachine.Xchandles.Update

/-!
# XCHandles: the registry

The eight actions together.  Every one of them has a lawful footprint, and a
block settles the footprints of its actions on the level of slot values.

* `Action.run` — the actions of the registry.
* `Explains` — what a step computed, and its footprint; `exists_explains`.
* `Explains.matches`, `Explains.lawful` — **each action spends and creates
  exactly what its footprint says, and its footprint is lawful.**
* `exists_settlement` — **a block settles the footprints of its steps**: on all
  slots, and so on handle slots and on update slots separately.
-/

namespace SlotMachine.Xchandles

open Settlement

/-- The actions of the registry. -/
inductive Action where
  | register
  | expire
  | extend
  | oracle
  | initiateUpdate
  | executeUpdate
  | refund
  | delegatedState
  deriving DecidableEq, Repr

/-- Run an action. -/
def Action.run (M : Machine) (K : Constants) : Actions Action
  | register => Xchandles.register M K
  | expire => Xchandles.expire M K
  | extend => Xchandles.extend M K
  | oracle => Xchandles.oracle M K
  | initiateUpdate => Xchandles.initiateUpdate M K
  | executeUpdate => Xchandles.executeUpdate M K
  | refund => Xchandles.refund M K
  | delegatedState => SlotMachine.delegatedState M K.singletonModHash K.otherSingletonStructHash

/-! ## Footprints of steps -/

/-- How an action came to its conditions, and its footprint. -/
inductive Explains (M : Machine) (K : Constants) (truth solution : Clvm) :
    Action → List Condition → Footprint → Prop where
  | register (r : RegisterRun M K truth solution) :
      Explains M K truth solution .register r.conditions r.footprint
  | expire (r : ExpireRun M K truth solution) :
      Explains M K truth solution .expire r.conditions r.footprint
  | extend (r : ExtendRun M K truth solution) :
      Explains M K truth solution .extend r.conditions r.footprint
  | oracle (r : OracleRun M K solution) :
      Explains M K truth solution .oracle r.conditions r.footprint
  | initiateUpdate (r : InitiateRun M K solution) :
      Explains M K truth solution .initiateUpdate r.conditions r.footprint
  | executeUpdate (r : ExecuteRun M K solution) :
      Explains M K truth solution .executeUpdate r.conditions r.footprint
  | refund (r : RefundRun M K truth solution) :
      Explains M K truth solution .refund r.conditions r.footprint
  | delegatedState (stateHash sender : Bytes) :
      Explains M K truth solution .delegatedState
        [.receiveMessage puzzlePuzzle (.tagged 's' stateHash) [.atom sender]] ⟨[], [], [], []⟩

variable {M : Machine} {K : Constants}

theorem Explains.execute_inv {truth solution : Clvm} {cs : List Condition} {f : Footprint}
    (h : Explains M K truth solution .executeUpdate cs f) :
    ∃ x : ExecuteRun M K solution, cs = x.conditions ∧ f = x.footprint := by
  cases h with
  | executeUpdate x => exact ⟨x, rfl, rfl⟩

theorem Explains.initiate_inv {truth solution : Clvm} {cs : List Condition} {f : Footprint}
    (h : Explains M K truth solution .initiateUpdate cs f) :
    ∃ y : InitiateRun M K solution, cs = y.conditions ∧ f = y.footprint := by
  cases h with
  | initiateUpdate y => exact ⟨y, rfl, rfl⟩

/-- Every step can be explained. -/
theorem exists_explains {action : Action} {truth solution truth' : Clvm} {cs : List Condition}
    (h : action.run M K truth solution = some (truth', cs)) :
    ∃ f, Explains M K truth solution action cs f := by
  cases action with
  | register =>
      obtain ⟨r, hr⟩ := register_eq_some.1 h
      obtain ⟨-, rfl⟩ := Prod.mk.inj hr
      exact ⟨_, .register r⟩
  | expire =>
      obtain ⟨r, hr⟩ := expire_eq_some.1 h
      obtain ⟨-, rfl⟩ := Prod.mk.inj hr
      exact ⟨_, .expire r⟩
  | extend =>
      obtain ⟨r, hr⟩ := extend_run h
      obtain ⟨-, rfl⟩ := Prod.mk.inj hr
      exact ⟨_, .extend r⟩
  | oracle =>
      obtain ⟨r, hr⟩ := oracle_eq_some.1 h
      obtain ⟨-, rfl⟩ := Prod.mk.inj hr
      exact ⟨_, .oracle r⟩
  | initiateUpdate =>
      obtain ⟨r, hr⟩ := initiateUpdate_eq_some.1 h
      obtain ⟨-, rfl⟩ := Prod.mk.inj hr
      exact ⟨_, .initiateUpdate r⟩
  | executeUpdate =>
      obtain ⟨r, hr⟩ := executeUpdate_eq_some.1 h
      obtain ⟨-, rfl⟩ := Prod.mk.inj hr
      exact ⟨_, .executeUpdate r⟩
  | refund =>
      obtain ⟨r, hr⟩ := refund_eq_some.1 h
      obtain ⟨-, rfl⟩ := Prod.mk.inj hr
      exact ⟨_, .refund r⟩
  | delegatedState =>
      obtain ⟨e, s, newState, inner, d, sender, -, -, -, -, hout⟩ := delegatedState_eq_some.1 h
      obtain ⟨-, rfl⟩ := Prod.mk.inj hout
      exact ⟨_, .delegatedState d sender⟩

section

variable {action : Action} {truth solution : Clvm} {cs : List Condition} {f : Footprint}

/-- **The conditions of a step spend and create the coins of its footprint.** -/
theorem Explains.matches (h : Explains M K truth solution action cs f) : f.Matches M.hash K cs := by
  cases h with
  | register r => exact r.footprint_matches
  | expire r => exact r.footprint_matches
  | extend r => exact r.footprint_matches
  | oracle r => exact r.footprint_matches
  | initiateUpdate r => exact r.footprint_matches
  | executeUpdate r => exact r.footprint_matches
  | refund r => exact r.footprint_matches
  | delegatedState d sender => exact ⟨represents_zero _, represents_zero _⟩

/-- **The footprint of every step is lawful.** -/
theorem Explains.lawful (h : Explains M K truth solution action cs f) : f.Lawful := by
  cases h with
  | register r => exact r.footprint_lawful
  | expire r => exact r.footprint_lawful
  | extend r => exact r.footprint_lawful
  | oracle r => exact r.footprint_lawful
  | initiateUpdate r => exact r.footprint_lawful
  | executeUpdate r => exact r.footprint_lawful
  | refund r => exact r.footprint_lawful
  | delegatedState d sender => exact Footprint.lawful_empty

end

/-- The key a call registers, if it is a registration. -/
def Call.registeredKey (c : Call Action) : Option Clvm :=
  if c.action = .register then c.solution.first else none

/-- The footprints of the steps of a block. -/
def Footprints (M : Machine) (K : Constants) (steps : List (Step Action)) (fs : List Footprint) :
    Prop :=
  List.Forall₂ (fun s f =>
    Explains M K s.truth s.call.solution s.call.action s.conditions f) steps fs

/-- Exactly the registrations add a handle slot, and its key is the one in the solution. -/
theorem Explains.inserted_key {action : Action} {truth solution : Clvm} {cs : List Condition}
    {f : Footprint} (h : Explains M K truth solution action cs f) :
    f.inserted.map keyOf = (Call.registeredKey ⟨action, solution⟩).toList.map some := by
  cases h with
  | register r =>
      have hfirst : solution.first = some r.s.handleHash :=
        Clvm.first_eq_some.2 ⟨_, r.solution_eq⟩
      rw [Call.registeredKey, if_pos rfl, hfirst]
      rfl
  | refund r =>
      rw [RefundRun.footprint]
      split <;> rfl
  | expire r => rfl
  | extend r => rfl
  | oracle r => rfl
  | initiateUpdate r => rfl
  | executeUpdate r => rfl
  | delegatedState d sender => rfl

/-- The keys registered by the steps of a block. -/
def registeredKeys (steps : List (Step Action)) : List Clvm :=
  steps.filterMap fun s => Call.registeredKey s.call

theorem Footprints.inserted_keys {steps : List (Step Action)} {fs : List Footprint}
    (h : Footprints M K steps fs) :
    (fs.flatMap Footprint.inserted).map keyOf = (registeredKeys steps).map some := by
  induction h with
  | nil => rfl
  | @cons s f steps fs hs _ ih =>
      rw [List.flatMap_cons, List.map_append, hs.inserted_key, ih, registeredKeys, registeredKeys,
        List.filterMap_cons]
      cases Call.registeredKey s.call <;> rfl

theorem Footprints.exists_mem {steps : List (Step Action)} {fs : List Footprint}
    (h : Footprints M K steps fs) {f : Footprint} (hf : f ∈ fs) :
    ∃ s ∈ steps, Explains M K s.truth s.call.solution s.call.action s.conditions f := by
  induction h with
  | nil => exact absurd hf List.not_mem_nil
  | @cons s f' steps fs hs _ ih =>
      rcases List.mem_cons.1 hf with rfl | hf
      · exact ⟨s, List.mem_cons_self .., hs⟩
      · obtain ⟨s', hs', h'⟩ := ih hf
        exact ⟨s', List.mem_cons_of_mem _ hs', h'⟩

theorem Footprints.exists_mem_of_step {steps : List (Step Action)} {fs : List Footprint}
    (h : Footprints M K steps fs) {s : Step Action} (hs : s ∈ steps) :
    ∃ f ∈ fs, Explains M K s.truth s.call.solution s.call.action s.conditions f := by
  induction h with
  | nil => exact absurd hs List.not_mem_nil
  | @cons s' f steps fs hs' _ ih =>
      rcases List.mem_cons.1 hs with rfl | hs
      · exact ⟨f, List.mem_cons_self .., hs'⟩
      · obtain ⟨f', hf', h'⟩ := ih hs
        exact ⟨f', List.mem_cons_of_mem _ hf', h'⟩

theorem Footprints.lawful {steps : List (Step Action)} {fs : List Footprint}
    (h : Footprints M K steps fs) : ∀ f ∈ fs, f.Lawful := by
  intro f hf
  obtain ⟨s, -, hs⟩ := h.exists_mem hf
  exact hs.lawful

/-- Every block has footprints. -/
theorem exists_footprints {r r' : Registry} {b : Block Action} {steps : List (Step Action)}
    (h : BlockStep (Action.run M K) r b steps r') : ∃ fs, Footprints M K steps fs := by
  have hall : ∀ s ∈ steps, ∃ f, Explains M K s.truth s.call.solution s.call.action s.conditions f :=
    fun s hs => exists_explains (h.run_eq hs)
  clear h
  induction steps with
  | nil => exact ⟨[], .nil⟩
  | cons s steps ih =>
      obtain ⟨f, hf⟩ := hall s (List.mem_cons_self ..)
      obtain ⟨fs, hfs⟩ := ih fun s' hs' => hall s' (List.mem_cons_of_mem _ hs')
      exact ⟨f :: fs, .cons hf hfs⟩

/-! ## Settling a block -/

/-- The handle slots among some slots. -/
def handlesOf (items : Multiset Item) : Multiset Clvm :=
  items.filterMap fun
    | .handle v => some v
    | .update _ => none

/-- The update slots among some slots. -/
def updatesOf (items : Multiset Item) : Multiset Clvm :=
  items.filterMap fun
    | .handle _ => none
    | .update v => some v

theorem mem_handlesOf {items : Multiset Item} {v : Clvm} :
    v ∈ handlesOf items ↔ .handle v ∈ items := by
  rw [handlesOf, Multiset.mem_filterMap]
  constructor
  · rintro ⟨i, hi, h⟩
    cases i with
    | handle w => obtain rfl := Option.some.inj h; exact hi
    | update w => cases h
  · intro h; exact ⟨_, h, rfl⟩

/-- The slots behind the coins of a registry. -/
def Behind (H : HashOracle) (K : Constants) (items : Multiset Item) (r : Registry) : Prop :=
  Represents (Item.coin H K) items r.live

theorem handlesOf_add (s t : Multiset Item) : handlesOf (s + t) = handlesOf s + handlesOf t :=
  Multiset.filterMap_add ..

theorem updatesOf_add (s t : Multiset Item) : updatesOf (s + t) = updatesOf s + updatesOf t :=
  Multiset.filterMap_add ..

/-- The view of the handle slots. -/
def handleView : Multiset Item →+ Multiset Clvm where
  toFun := handlesOf
  map_zero' := rfl
  map_add' := handlesOf_add

/-- The view of the update slots. -/
def updateView : Multiset Item →+ Multiset Clvm where
  toFun := updatesOf
  map_zero' := rfl
  map_add' := updatesOf_add

@[simp] theorem handlesOf_coe_handle (vs : List Clvm) :
    handlesOf (vs.map Item.handle : List Item) = (vs : Multiset Clvm) := by
  induction vs with
  | nil => rfl
  | cons v vs ih => exact congrArg (v ::ₘ ·) ih

@[simp] theorem handlesOf_coe_update (vs : List Clvm) :
    handlesOf (vs.map Item.update : List Item) = 0 := by
  induction vs with
  | nil => rfl
  | cons v vs ih => exact ih

@[simp] theorem updatesOf_coe_handle (vs : List Clvm) :
    updatesOf (vs.map Item.handle : List Item) = 0 := by
  induction vs with
  | nil => rfl
  | cons v vs ih => exact ih

@[simp] theorem updatesOf_coe_update (vs : List Clvm) :
    updatesOf (vs.map Item.update : List Item) = (vs : Multiset Clvm) := by
  induction vs with
  | nil => rfl
  | cons v vs ih => exact congrArg (v ::ₘ ·) ih

section Effect

variable (f : Footprint)

/-- A footprint on the handle slots. -/
def Footprint.handleEffect : Effect Clvm where
  consumed := (f.moves.map Prod.fst : List Clvm)
  created := (f.moves.map Prod.snd ++ f.inserted : List Clvm)

/-- A footprint on the update slots. -/
def Footprint.updateEffect : Effect Clvm where
  consumed := (f.closed : Multiset Clvm)
  created := (f.opened : Multiset Clvm)

theorem consumed_effect : f.effect.consumed
    = ((f.moves.map Prod.fst).map Item.handle : List Item)
      + (f.closed.map Item.update : List Item) := by
  rw [Multiset.coe_add, List.map_map]
  rfl

theorem created_effect : f.effect.created
    = ((f.moves.map Prod.snd).map Item.handle : List Item)
      + (f.inserted.map Item.handle : List Item) + (f.opened.map Item.update : List Item) := by
  rw [Multiset.coe_add, Multiset.coe_add, List.map_map]
  rfl

theorem handlesOf_consumed : handlesOf f.effect.consumed = f.handleEffect.consumed := by
  rw [consumed_effect, handlesOf_add, handlesOf_coe_handle, handlesOf_coe_update, add_zero]
  rfl

theorem handlesOf_created : handlesOf f.effect.created = f.handleEffect.created := by
  rw [created_effect, handlesOf_add, handlesOf_add, handlesOf_coe_handle, handlesOf_coe_handle,
    handlesOf_coe_update, add_zero, Multiset.coe_add]
  rfl

theorem updatesOf_consumed : updatesOf f.effect.consumed = f.updateEffect.consumed := by
  rw [consumed_effect, updatesOf_add, updatesOf_coe_handle, updatesOf_coe_update, zero_add]
  rfl

theorem updatesOf_created : updatesOf f.effect.created = f.updateEffect.created := by
  rw [created_effect, updatesOf_add, updatesOf_add, updatesOf_coe_handle, updatesOf_coe_handle,
    updatesOf_coe_update, zero_add, zero_add]
  rfl

theorem map_handleView_effect : f.effect.map handleView = f.handleEffect :=
  congrArg₂ Effect.mk (handlesOf_consumed f) (handlesOf_created f)

theorem map_updateView_effect : f.effect.map updateView = f.updateEffect :=
  congrArg₂ Effect.mk (updatesOf_consumed f) (updatesOf_created f)

end Effect

/-- The coins of a block are those of its footprints. -/
theorem Footprints.represents {steps : List (Step Action)} {fs : List Footprint}
    (h : Footprints M K steps fs) :
    Represents (Item.coin M.hash K) (Effect.total (fs.map Footprint.effect)).consumed
        (Effect.total (steps.map Step.effect)).consumed ∧
      Represents (Item.coin M.hash K) (Effect.total (fs.map Footprint.effect)).created
        (Effect.total (steps.map Step.effect)).created := by
  induction h with
  | nil => exact ⟨represents_zero _, represents_zero _⟩
  | @cons s f steps fs hs _ ih =>
      simp only [List.map_cons, Effect.consumed_total_cons, Effect.created_total_cons]
      exact ⟨hs.matches.consumed.add ih.1, hs.matches.created.add ih.2⟩

/-- **A block settles the footprints of its steps.** -/
theorem exists_settlement (hH : M.hash.CollisionFree)
    (hK : K.handleSlot1stCurryHash ≠ K.updateSlot1stCurryHash) {r r' : Registry} {b : Block Action}
    {steps : List (Step Action)} (h : BlockStep (Action.run M K) r b steps r')
    {fs : List Footprint} (hfs : Footprints M K steps fs) {items : Multiset Item}
    (hitems : Behind M.hash K items r) :
    ∃ items', Behind M.hash K items' r' ∧
      Settles items (Effect.total (fs.map Footprint.effect)) items' :=
  hitems.settle (Item.coin_injOnDomain hH hK) hfs.represents.1 hfs.represents.2 h.settles

/-- The slots behind a registry are determined by its coins. -/
theorem Behind.unique (hH : M.hash.CollisionFree)
    (hK : K.handleSlot1stCurryHash ≠ K.updateSlot1stCurryHash) {r : Registry}
    {items items' : Multiset Item} (h : Behind M.hash K items r) (h' : Behind M.hash K items' r) :
    items = items' :=
  le_antisymm (h.le_of_le (Item.coin_injOnDomain hH hK) h' le_rfl)
    (h'.le_of_le (Item.coin_injOnDomain hH hK) h le_rfl)

section Views

variable {items items' : Multiset Item} {fs : List Footprint}

theorem settles_handles (h : Settles items (Effect.total (fs.map Footprint.effect)) items') :
    Settles (handlesOf items) (Effect.total (fs.map Footprint.handleEffect))
      (handlesOf items') := by
  have hmap := h.map handleView
  rw [List.map_map] at hmap
  have hcongr : fs.map (Effect.map handleView ∘ Footprint.effect)
      = fs.map Footprint.handleEffect := List.map_congr_left fun f _ => map_handleView_effect f
  rw [hcongr] at hmap
  exact hmap

theorem settles_updates (h : Settles items (Effect.total (fs.map Footprint.effect)) items') :
    Settles (updatesOf items) (Effect.total (fs.map Footprint.updateEffect))
      (updatesOf items') := by
  have hmap := h.map updateView
  rw [List.map_map] at hmap
  have hcongr : fs.map (Effect.map updateView ∘ Footprint.effect)
      = fs.map Footprint.updateEffect := List.map_congr_left fun f _ => map_updateView_effect f
  rw [hcongr] at hmap
  exact hmap

end Views

end SlotMachine.Xchandles
