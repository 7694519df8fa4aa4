import Mathlib.Algebra.BigOperators.Group.Multiset.Basic
import Mathlib.Algebra.Order.Group.Multiset
import Mathlib.Tactic

/-!
# Settling a batch without an order

A ledger is a multiset of items.  Every action of a batch consumes some items
and creates others, and the batch is settled as a whole: an item one action
creates may be consumed by any other action of the batch, so the actions have
no order and may even justify each other in a circle.  What can still be said
is what every single action conserves.

* `Settles live e live'` — the batch with total effect `e` takes `live` to `live'`.
* `Settles.weigh_eq` — **conservation**: a weight that every action conserves
  is conserved by the batch.
* `Settles.weigh_eq_add_gain` — any other weight changes by what the actions add to it.
* `Represents.settle` — a batch settled on the images of the items under a
  partial injection is settled on the items themselves.
-/

namespace Settlement

variable {α β M : Type*}

/-- What an action, or a batch of them, takes from the ledger and puts into it. -/
structure Effect (α : Type*) where
  consumed : Multiset α
  created : Multiset α

namespace Effect

/-- Doing nothing. -/
def none : Effect α := ⟨0, 0⟩

/-- The effect of a batch. -/
def total (es : List (Effect α)) : Effect α :=
  ⟨(es.map consumed).sum, (es.map created).sum⟩

@[simp] theorem total_nil : total ([] : List (Effect α)) = none := rfl

@[simp] theorem consumed_total_cons (e : Effect α) (es : List (Effect α)) :
    (total (e :: es)).consumed = e.consumed + (total es).consumed := by
  simp [total]

@[simp] theorem created_total_cons (e : Effect α) (es : List (Effect α)) :
    (total (e :: es)).created = e.created + (total es).created := by
  simp [total]

theorem consumed_total_append (es fs : List (Effect α)) :
    (total (es ++ fs)).consumed = (total es).consumed + (total fs).consumed := by
  simp [total]

theorem created_total_append (es fs : List (Effect α)) :
    (total (es ++ fs)).created = (total es).created + (total fs).created := by
  simp [total]

theorem mem_created_total {es : List (Effect α)} {a : α} :
    a ∈ (total es).created ↔ ∃ e ∈ es, a ∈ e.created := by
  induction es with
  | nil => simp [total]
  | cons e es ih => simp [ih]

theorem mem_consumed_total {es : List (Effect α)} {a : α} :
    a ∈ (total es).consumed ↔ ∃ e ∈ es, a ∈ e.consumed := by
  induction es with
  | nil => simp [total]
  | cons e es ih => simp [ih]

/-- The order of the actions does not matter. -/
theorem total_perm {es fs : List (Effect α)} (h : es.Perm fs) : total es = total fs := by
  unfold total
  rw [(h.map consumed).sum_eq, (h.map created).sum_eq]

end Effect

/-- The batch with total effect `e` takes the ledger from `live` to `live'`. -/
def Settles (live : Multiset α) (e : Effect α) (live' : Multiset α) : Prop :=
  live' + e.consumed = live + e.created

/-- One item is replaced by another one. -/
theorem settles_replace (a b : α) (s : Multiset α) :
    Settles (a ::ₘ s) (Effect.total [⟨{a}, {b}⟩]) (b ::ₘ s) := by
  unfold Settles
  rw [Effect.consumed_total_cons, Effect.created_total_cons]
  simp only [Effect.total_nil, Effect.none, add_zero, ← Multiset.singleton_add]
  abel

/-- Batches that are settled one after the other are settled as one. -/
theorem Settles.append {s t u : Multiset α} {es fs : List (Effect α)}
    (h : Settles s (Effect.total es) t) (h' : Settles t (Effect.total fs) u) :
    Settles s (Effect.total (es ++ fs)) u := by
  unfold Settles at *
  rw [Effect.consumed_total_append, Effect.created_total_append,
    add_comm (Effect.total es).consumed, ← add_assoc, h', ← add_assoc, ← h]
  exact add_right_comm ..

/-- What a batch takes the ledger to is determined. -/
theorem Settles.unique {s t t' : Multiset α} {e : Effect α} (h : Settles s e t)
    (h' : Settles s e t') : t = t' :=
  add_right_cancel (Eq.trans h (Eq.symm h'))

/-- An item that is live afterwards was live before or created by the batch. -/
theorem Settles.mem_or_mem {live live' : Multiset α} {e : Effect α} (h : Settles live e live')
    {a : α} (ha : a ∈ live') : a ∈ live ∨ a ∈ e.created := by
  have hmem : a ∈ live' + e.consumed := Multiset.mem_add.2 (Or.inl ha)
  rw [h] at hmem
  exact Multiset.mem_add.1 hmem

/-- A consumed item was live before or created by the batch. -/
theorem Settles.mem_or_mem_of_consumed {live live' : Multiset α} {e : Effect α}
    (h : Settles live e live') {a : α} (ha : a ∈ e.consumed) : a ∈ live ∨ a ∈ e.created := by
  have hmem : a ∈ live' + e.consumed := Multiset.mem_add.2 (Or.inr ha)
  rw [h] at hmem
  exact Multiset.mem_add.1 hmem

/-! ## Looking at part of the ledger -/

section Map

/-- An effect as seen through an additive view of the ledger. -/
def Effect.map (φ : Multiset α →+ Multiset β) (e : Effect α) : Effect β :=
  ⟨φ e.consumed, φ e.created⟩

theorem Effect.map_total (φ : Multiset α →+ Multiset β) (es : List (Effect α)) :
    (total es).map φ = total (es.map (Effect.map φ)) := by
  induction es with
  | nil => simp [Effect.map, total]
  | cons e es ih =>
      have hconsumed : φ (total es).consumed = (total (es.map (Effect.map φ))).consumed :=
        congrArg consumed ih
      have hcreated : φ (total es).created = (total (es.map (Effect.map φ))).created :=
        congrArg created ih
      rw [Effect.map, consumed_total_cons, created_total_cons, map_add, map_add, hconsumed, hcreated]
      rfl

/-- What settles, settles in every view. -/
theorem Settles.map {live live' : Multiset α} {es : List (Effect α)}
    (h : Settles live (Effect.total es) live') (φ : Multiset α →+ Multiset β) :
    Settles (φ live) (Effect.total (es.map (Effect.map φ))) (φ live') := by
  rw [Settles, ← Effect.map_total, Effect.map, ← map_add, h, map_add]

end Map

/-! ## Conserved weights -/

section Weight

variable [AddCommMonoid M]

/-- The total weight of a multiset. -/
def weigh (w : α → M) (s : Multiset α) : M := (s.map w).sum

@[simp] theorem weigh_zero (w : α → M) : weigh w 0 = 0 := rfl

@[simp] theorem weigh_add (w : α → M) (s t : Multiset α) :
    weigh w (s + t) = weigh w s + weigh w t := by
  simp [weigh]

@[simp] theorem weigh_cons (w : α → M) (a : α) (s : Multiset α) :
    weigh w (a ::ₘ s) = w a + weigh w s := by
  simp [weigh]

@[simp] theorem weigh_singleton (w : α → M) (a : α) : weigh w {a} = w a := by
  simp [weigh]

/-- What is consumed weighs what is created. -/
def Effect.Conserves (w : α → M) (e : Effect α) : Prop := weigh w e.consumed = weigh w e.created

theorem Effect.conserves_total {w : α → M} {es : List (Effect α)}
    (h : ∀ e ∈ es, e.Conserves w) : (total es).Conserves w := by
  induction es with
  | nil => rfl
  | cons e es ih =>
      have he : weigh w e.consumed = weigh w e.created := h e (List.mem_cons_self ..)
      have hes : weigh w (total es).consumed = weigh w (total es).created :=
        ih fun e' he' => h e' (List.mem_cons_of_mem _ he')
      rw [Effect.Conserves, consumed_total_cons, created_total_cons, weigh_add, weigh_add, he, hes]

/-- What leaves the ledger and what enters it account for the change of any weight. -/
theorem Settles.weigh_add_weigh {live live' : Multiset α} {e : Effect α}
    (h : Settles live e live') (w : α → M) :
    weigh w live' + weigh w e.consumed = weigh w live + weigh w e.created := by
  rw [← weigh_add, ← weigh_add, h]

end Weight

/-- **Conservation.**  A batch conserves every weight that each of its actions
conserves, whatever the actions feed each other. -/
theorem Settles.weigh_eq [AddCancelCommMonoid M] {live live' : Multiset α} {w : α → M}
    {es : List (Effect α)} (h : Settles live (Effect.total es) live')
    (hes : ∀ e ∈ es, e.Conserves w) : weigh w live' = weigh w live := by
  have htotal : weigh w (Effect.total es).consumed = weigh w (Effect.total es).created :=
    Effect.conserves_total hes
  have hadd := h.weigh_add_weigh w
  rw [htotal] at hadd
  exact add_right_cancel hadd

/-- What an effect adds to a weight. -/
def Effect.gain [AddCommGroup M] (w : α → M) (e : Effect α) : M :=
  weigh w e.created - weigh w e.consumed

theorem Effect.gain_total [AddCommGroup M] (w : α → M) (es : List (Effect α)) :
    (total es).gain w = (es.map (gain w)).sum := by
  induction es with
  | nil => simp [gain, none]
  | cons e es ih =>
      rw [List.map_cons, List.sum_cons, ← ih]
      unfold gain
      rw [consumed_total_cons, created_total_cons, weigh_add, weigh_add]
      abel

/-- **A weight changes by what the actions of the batch add to it.** -/
theorem Settles.weigh_eq_add_gain [AddCommGroup M] {live live' : Multiset α}
    {es : List (Effect α)} (h : Settles live (Effect.total es) live') (w : α → M) :
    weigh w live' = weigh w live + (es.map (Effect.gain w)).sum := by
  rw [← Effect.gain_total, Effect.gain, ← add_sub_assoc, ← h.weigh_add_weigh w, add_sub_cancel_right]

/-! ## Items and their images -/

/-- `live` holds the images of the items of `items`, all of which have one. -/
def Represents (f : α → Option β) (items : Multiset α) (live : Multiset β) : Prop :=
  items.map f = live.map some

@[simp] theorem represents_zero (f : α → Option β) : Represents f 0 0 := rfl

theorem Represents.add {f : α → Option β} {s t : Multiset α} {u v : Multiset β}
    (h : Represents f s u) (h' : Represents f t v) : Represents f (s + t) (u + v) := by
  rw [Represents, Multiset.map_add, Multiset.map_add, h, h']

theorem Represents.cons {f : α → Option β} {s : Multiset α} {u : Multiset β} {a : α} {b : β}
    (hab : f a = some b) (h : Represents f s u) : Represents f (a ::ₘ s) (b ::ₘ u) := by
  rw [Represents, Multiset.map_cons, Multiset.map_cons, hab, h]

theorem Represents.exists_of_mem {f : α → Option β} {s : Multiset α} {u : Multiset β}
    (h : Represents f s u) {b : β} (hb : b ∈ u) : ∃ a ∈ s, f a = some b := by
  have hmem : some b ∈ u.map some := Multiset.mem_map_of_mem some hb
  rw [← h] at hmem
  obtain ⟨a, ha, hab⟩ := Multiset.mem_map.1 hmem
  exact ⟨a, ha, hab⟩

theorem Represents.exists_image {f : α → Option β} {s : Multiset α} {u : Multiset β}
    (h : Represents f s u) {a : α} (ha : a ∈ s) : ∃ b ∈ u, f a = some b := by
  have hmem : f a ∈ s.map f := Multiset.mem_map_of_mem f ha
  rw [h] at hmem
  obtain ⟨b, hb, hab⟩ := Multiset.mem_map.1 hmem
  exact ⟨b, hb, hab.symm⟩

/-- The images of some of the items are some of the images. -/
theorem Represents.image_le {f : α → Option β} {s t : Multiset α} {u v : Multiset β}
    (hs : Represents f s u) (ht : Represents f t v) (h : s ≤ t) : u ≤ v := by
  have hmap : u.map some ≤ v.map some := by
    rw [← hs, ← ht]
    exact Multiset.map_le_map h
  exact (Multiset.map_le_map_iff (Option.some_injective β)).1 hmap

/-- A partial injection. -/
def InjOnDomain (f : α → Option β) : Prop :=
  ∀ ⦃a a' : α⦄ ⦃b : β⦄, f a = some b → f a' = some b → a = a'

/-- An inclusion of images is an inclusion of items. -/
theorem Represents.le_of_le {f : α → Option β} (hf : InjOnDomain f) {s t : Multiset α}
    {u v : Multiset β} (hs : Represents f s u) (ht : Represents f t v) (h : u ≤ v) : s ≤ t := by
  classical
  by_cases hne : Nonempty α
  · -- a left inverse of `f` on its domain
    let g : Option β → α := fun o => if h : ∃ a, f a = o then h.choose else hne.some
    have hg : ∀ {s : Multiset α} {u : Multiset β}, Represents f s u → (u.map some).map g = s := by
      intro s u hs
      rw [← hs, Multiset.map_map]
      refine (Multiset.map_congr rfl fun a ha => ?_).trans (Multiset.map_id s)
      obtain ⟨b, -, hab⟩ := hs.exists_image ha
      have hex : ∃ a', f a' = f a := ⟨a, rfl⟩
      have hchoose : f hex.choose = f a := hex.choose_spec
      simp only [Function.comp, g, dif_pos hex, id]
      exact hf (hchoose.trans hab) hab
    rw [← hg hs, ← hg ht]
    exact Multiset.map_le_map (Multiset.map_le_map h)
  · have hzero : s = 0 := Multiset.eq_zero_of_forall_notMem fun a _ => hne ⟨a⟩
    rw [hzero]
    exact Multiset.zero_le t

/-- **Lifting.**  If the images settle, so do the items. -/
theorem Represents.settle {f : α → Option β} (hf : InjOnDomain f) {items : Multiset α}
    {live live' : Multiset β} {e : Effect α} {e' : Effect β} (hlive : Represents f items live)
    (hconsumed : Represents f e.consumed e'.consumed)
    (hcreated : Represents f e.created e'.created) (h : Settles live e' live') :
    ∃ items', Represents f items' live' ∧ Settles items e items' := by
  have hle : e'.consumed ≤ live + e'.created := by
    rw [← h]
    exact Multiset.le_add_left _ _
  obtain ⟨items', hitems'⟩ :=
    Multiset.le_iff_exists_add.1 (hconsumed.le_of_le hf (hlive.add hcreated) hle)
  refine ⟨items', ?_, by rw [Settles, hitems', add_comm]⟩
  have hmap : (items'.map f) + e'.consumed.map some = live'.map some + e'.consumed.map some := by
    rw [← Multiset.map_add some, h, ← hconsumed, ← Multiset.map_add, add_comm items', ← hitems',
      Multiset.map_add, hlive, hcreated, Multiset.map_add]
  exact add_right_cancel hmap

end Settlement
