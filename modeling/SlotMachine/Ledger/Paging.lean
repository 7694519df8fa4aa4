import Mathlib.Data.List.TakeWhile
import Mathlib.Order.Basic
import Mathlib.Tactic

/-!
# Pages of a sorted listing

A listing is served in pages.  A page has some of the rows after its cursor, and the cursor
of its last row if there are more; rows that are not wanted are dropped after they were
fetched.

* `listing`, `fetch` — the rows in order, and some of them after a key.
* `fetch_none`, `fetch_some` — **a fetch is a part of the listing**; `fetch_one` — its first row.
* `page`, `walk` — a page, and the requests from a cursor on until there is none.
* `Served.walk_eq` — **what a walk returns**: it ends with the first page that is not full.
* `Served.complete_iff` — **when that is every row that is wanted**.
-/

namespace Paging

/-! ## A sorted listing -/

section

variable {α κ : Type*} [LinearOrder κ] (key : α → κ)

/-- The rows in the order of their keys. -/
def listing (rows : List α) : List α := rows.mergeSort fun x y => decide (key x ≤ key y)

/-- The first rows after a cursor. -/
def fetch (rows : List α) (after : Option κ) (limit : ℕ) : List α :=
  (listing key (rows.filter fun x => decide (∀ k ∈ after, k < key x))).take limit

variable {key} {rows : List α}

theorem perm_listing : (listing key rows).Perm rows := List.mergeSort_perm ..

theorem pairwise_listing_le (rows : List α) :
    (listing key rows).Pairwise fun x y => key x ≤ key y := by
  have h : (listing key rows).Pairwise fun x y => decide (key x ≤ key y) = true :=
    List.pairwise_mergeSort (fun a b c => by simpa using le_trans)
      (fun a b => by simpa using le_total (key a) (key b)) rows
  exact h.imp fun hle => of_decide_eq_true hle

/-- Rows with keys of their own are strictly sorted. -/
theorem pairwise_listing (hkeys : (rows.map key).Nodup) :
    (listing key rows).Pairwise fun x y => key x < key y := by
  have hdistinct : (listing key rows).Pairwise fun x y => key x ≠ key y :=
    List.pairwise_map.1 ((perm_listing.map key).nodup_iff.2 hkeys)
  exact ((pairwise_listing_le rows).and hdistinct).imp fun h => lt_of_le_of_ne h.1 h.2

/-- **A part of the rows is listed in the same order.** -/
theorem listing_filter (hkeys : (rows.map key).Nodup) (p : α → Bool) :
    listing key (rows.filter p) = (listing key rows).filter p := by
  have hantisymm : ∀ x y, x ∈ listing key (rows.filter p) → y ∈ (listing key rows).filter p →
      key x ≤ key y → key y ≤ key x → x = y := by
    intro x y hx hy hxy hyx
    refine List.inj_on_of_nodup_map hkeys ?_ ?_ (le_antisymm hxy hyx)
    · exact (List.mem_filter.1 (perm_listing.mem_iff.1 hx)).1
    · exact perm_listing.mem_iff.1 (List.mem_filter.1 hy).1
  exact List.Perm.eq_of_pairwise hantisymm (pairwise_listing_le _)
    ((pairwise_listing_le rows).filter p) (perm_listing.trans (perm_listing.symm.filter p))

/-- Rows that are in order are listed as they are. -/
theorem listing_eq_self (h : rows.Pairwise fun x y => key x ≤ key y) : listing key rows = rows :=
  List.mergeSort_of_pairwise (h.imp fun hle => decide_eq_true hle)

/-- A row that is fetched is one after the cursor. -/
theorem mem_of_mem_fetch {after : Option κ} {limit : ℕ} {x : α}
    (h : x ∈ fetch key rows after limit) : x ∈ rows ∧ ∀ k ∈ after, k < key x := by
  have hmem := List.mem_filter.1 (perm_listing.mem_iff.1 (List.mem_of_mem_take h))
  exact ⟨hmem.1, of_decide_eq_true hmem.2⟩

/-- The rows after one of a sorted list. -/
theorem filter_lt_eq_drop {L : List α} (hL : L.Pairwise fun x y => key x < key y) {i : ℕ}
    (hi : i < L.length) : L.filter (fun x => decide (key L[i] < key x)) = L.drop (i + 1) := by
  have hsplit : L.take (i + 1) ++ L.drop (i + 1) = L := List.take_append_drop ..
  have hbefore : (L.take (i + 1)).filter (fun x => decide (key L[i] < key x)) = [] := by
    rw [List.filter_eq_nil_iff]
    intro x hx
    obtain ⟨j, hj, rfl⟩ := List.mem_iff_getElem.1 hx
    rw [List.getElem_take, decide_eq_true_eq, not_lt]
    rw [List.length_take] at hj
    rcases Nat.lt_or_ge j i with hlt | hge
    · exact (List.pairwise_iff_getElem.1 hL j i (by omega) hi hlt).le
    · obtain rfl : j = i := by omega
      exact le_rfl
  have hafter : (L.drop (i + 1)).filter (fun x => decide (key L[i] < key x)) = L.drop (i + 1) := by
    rw [List.filter_eq_self]
    intro x hx
    obtain ⟨j, hj, rfl⟩ := List.mem_iff_getElem.1 hx
    rw [List.getElem_drop, decide_eq_true_eq]
    rw [List.length_drop] at hj
    exact List.pairwise_iff_getElem.1 hL i _ hi (by omega) (by omega)
  conv_lhs =>
    arg 2
    rw [← hsplit]
  rw [List.filter_append, hbefore, hafter, List.nil_append]

/-- **Without a cursor a fetch begins with the listing.** -/
theorem fetch_none (limit : ℕ) : fetch key rows none limit = (listing key rows).take limit := by
  unfold fetch
  rw [List.filter_eq_self.2]
  intro x _
  simp

/-- **After one of the rows it goes on with the next.** -/
theorem fetch_some (hkeys : (rows.map key).Nodup) {i : ℕ} (hi : i < (listing key rows).length)
    (limit : ℕ) : fetch key rows (some (key (listing key rows)[i])) limit
      = ((listing key rows).drop (i + 1)).take limit := by
  unfold fetch
  rw [listing_filter hkeys, ← filter_lt_eq_drop (pairwise_listing hkeys) hi]
  simp

/-- **The first row after a cursor.** -/
theorem fetch_one (key : α → κ) (rows : List α) (after : Option κ) :
    (fetch key rows after 1 = [] ∧ ∀ x ∈ rows, ¬ ∀ k ∈ after, k < key x) ∨
      ∃ x ∈ rows, fetch key rows after 1 = [x] ∧ (∀ k ∈ after, k < key x) ∧
        ∀ y ∈ rows, (∀ k ∈ after, k < key y) → key x ≤ key y := by
  have hmem (x : α) : x ∈ listing key (rows.filter fun x => decide (∀ k ∈ after, k < key x)) ↔
      x ∈ rows ∧ ∀ k ∈ after, k < key x := by
    rw [perm_listing.mem_iff, List.mem_filter, decide_eq_true_eq]
  have hsorted : (listing key (rows.filter fun x => decide (∀ k ∈ after, k < key x))).Pairwise
      fun x y => key x ≤ key y :=
    pairwise_listing_le _
  unfold fetch
  cases hlisting : listing key (rows.filter fun x => decide (∀ k ∈ after, k < key x)) with
  | nil =>
      refine Or.inl ⟨rfl, fun x hx hafter => ?_⟩
      have hx' := (hmem x).2 ⟨hx, hafter⟩
      rw [hlisting] at hx'
      cases hx'
  | cons x rest =>
      rw [hlisting] at hmem hsorted
      have hx := (hmem x).1 List.mem_cons_self
      refine Or.inr ⟨x, hx.1, rfl, hx.2, fun y hy hafter => ?_⟩
      rcases List.mem_cons.1 ((hmem y).2 ⟨hy, hafter⟩) with rfl | hrest
      · exact le_rfl
      · exact List.rel_of_pairwise_cons hsorted hrest

end

/-! ## Pages -/

section

variable {α β γ κ : Type*}

/-- A page of the rows that were fetched: those that are wanted, up to the limit, and the last
of them if there are more. -/
def page (keep : α → Bool) (limit : ℕ) (fetched : List α) : List α × Option α :=
  ((fetched.filter keep).take limit,
    if limit < (fetched.filter keep).length then (fetched.filter keep)[limit - 1]? else none)

/-- **The row of the next cursor is on the page.** -/
theorem mem_page_of_next {keep : α → Bool} {limit : ℕ} (hlimit : 0 < limit) {fetched : List α}
    {x : α} (h : (page keep limit fetched).2 = some x) : x ∈ (page keep limit fetched).1 := by
  unfold page at h ⊢
  dsimp only at h ⊢
  split at h
  · refine List.mem_of_getElem? (i := limit - 1) ?_
    rw [List.getElem?_take_of_lt (by omega)]
    exact h
  · cases h

theorem mem_of_mem_page {keep : α → Bool} {limit : ℕ} {fetched : List α} {x : α}
    (h : x ∈ (page keep limit fetched).1) : x ∈ fetched :=
  (List.mem_filter.1 (List.mem_of_mem_take h)).1

/-- The requests from a cursor on, until there is none.  A request can fail. -/
def walk (request : Option γ → Option (List β × Option γ)) : ℕ → Option γ → Option (List β)
  | 0, _ => none
  | fuel + 1, cursor =>
      match request cursor with
      | none => none
      | some (items, none) => some items
      | some (items, some next) => (walk request fuel (some next)).map (items ++ ·)

/-- **The requests end**, and these are their items. -/
def Walked (request : Option γ → Option (List β × Option γ)) (items : List β) : Prop :=
  ∃ fuel, walk request fuel none = some items

/-- A walk has one end. -/
theorem walk_unique {request : Option γ → Option (List β × Option γ)} {fuel fuel' : ℕ}
    {cursor : Option γ} {items items' : List β} (h : walk request fuel cursor = some items)
    (h' : walk request fuel' cursor = some items') : items = items' := by
  induction fuel generalizing fuel' cursor items items' with
  | zero => cases h
  | succ fuel ih =>
      cases fuel' with
      | zero => cases h'
      | succ fuel' =>
          unfold walk at h h'
          cases hrequest : request cursor with
          | none =>
              rw [hrequest] at h
              cases h
          | some answer =>
              obtain ⟨served, next⟩ := answer
              rw [hrequest] at h h'
              cases next with
              | none =>
                  cases h
                  cases h'
                  rfl
              | some next =>
                  obtain ⟨rest, hrest, rfl⟩ := Option.map_eq_some_iff.1 h
                  obtain ⟨rest', hrest', rfl⟩ := Option.map_eq_some_iff.1 h'
                  rw [ih hrest hrest']

/-- **The pages have what is wanted**: each item once, in order, and no other. -/
def Returns [LT β] (request : Option γ → Option (List β × Option γ)) (wanted : β → Prop) : Prop :=
  ∃ items, Walked request items ∧ items.Pairwise (· < ·) ∧ ∀ x, x ∈ items ↔ wanted x

/-- What is wanted is one list. -/
theorem returns_iff [LinearOrder β] {request : Option γ → Option (List β × Option γ)}
    {wanted : β → Prop} {items : List β} (hsorted : items.Pairwise (· < ·))
    (hmem : ∀ x, x ∈ items ↔ wanted x) : Returns request wanted ↔ Walked request items := by
  constructor
  · rintro ⟨items', hwalked, hsorted', hmem'⟩
    have hperm : items'.Perm items :=
      (List.perm_ext_iff_of_nodup (hsorted'.imp ne_of_lt) (hsorted.imp ne_of_lt)).2
        fun x => (hmem' x).trans (hmem x).symm
    obtain rfl : items' = items := hperm.eq_of_pairwise
      (fun x y _ _ hxy hyx => absurd hxy hyx.not_gt) hsorted' hsorted
    exact hwalked
  · exact fun hwalked => ⟨items, hwalked, hsorted, hmem⟩

/-- What is served of the rows from some place on. -/
def answer (keep : α → Bool) (limit : ℕ) (item : α → β) (encode : α → γ) (rows : List α) :
    List β × Option γ :=
  ((page keep limit (rows.take (limit + 1))).1.map item,
    (page keep limit (rows.take (limit + 1))).2.map encode)

/-- A cursor is one of a place in a listing: of the row before it, or of none. -/
def At (decode : γ → Option κ) (key : α → κ) (L : List α) (cursor : Option γ) (place : ℕ) : Prop :=
  cursor.bind decode = if place = 0 then none else (L[place - 1]?).map key

/-- **A fetch goes on at the place of its cursor.** -/
theorem fetch_at [LinearOrder κ] {decode : γ → Option κ} {key : α → κ} {rows : List α}
    (hkeys : (rows.map key).Nodup) {cursor : Option γ} {place : ℕ}
    (hplace : place ≤ (listing key rows).length)
    (hat : At decode key (listing key rows) cursor place) (limit : ℕ) :
    fetch key rows (cursor.bind decode) limit = ((listing key rows).drop place).take limit := by
  unfold At at hat
  rw [hat]
  cases place with
  | zero => rw [if_pos rfl, fetch_none, List.drop_zero]
  | succ place =>
      rw [if_neg (Nat.succ_ne_zero place), Nat.add_sub_cancel,
        List.getElem?_eq_getElem (Nat.lt_of_succ_le hplace)]
      exact fetch_some hkeys _ limit

/-- **A listing is served**: each request goes on at the place of its cursor, and the cursors
of good rows are ones of their places. -/
structure Served (request : Option γ → Option (List β × Option γ)) (L : List α)
    (keep good : α → Bool) (limit : ℕ) (item : α → β) (encode : α → γ) (decode : γ → Option κ)
    (key : α → κ) : Prop where
  request_eq : ∀ cursor place, place ≤ L.length → At decode key L cursor place →
    request cursor = some (answer keep limit item encode (L.drop place))
  decode_encode : ∀ x ∈ L, decode (encode x) = if good x then some (key x) else none

/-- The number of rows before the first that is not wanted. -/
def wantedFrom (keep : α → Bool) (L : List α) : ℕ := L.findIdx fun x => !keep x

section

variable {keep good : α → Bool} {limit : ℕ} {item : α → β} {encode : α → γ}
variable {L : List α} {place : ℕ}

theorem keep_of_lt {i : ℕ} (hi : i < L.length) (h : i < wantedFrom keep L) : keep L[i] = true := by
  simpa using List.not_of_lt_findIdx h

theorem keep_wantedFrom (h : wantedFrom keep L < L.length) :
    keep (L[wantedFrom keep L]) = false := by
  have hnot : (fun x => !keep x) L[wantedFrom keep L] = true := List.findIdx_getElem (w := h)
  simpa using hnot

theorem wantedFrom_le : wantedFrom keep L ≤ L.length := List.findIdx_le_length

/-- All rows of a part before it are wanted. -/
theorem filter_take_drop (h : place + limit ≤ wantedFrom keep L) :
    ((L.drop place).take limit).filter keep = (L.drop place).take limit := by
  rw [List.filter_eq_self]
  intro x hx
  obtain ⟨j, hj, rfl⟩ := List.mem_iff_getElem.1 hx
  rw [List.length_take, List.length_drop] at hj
  rw [List.getElem_take, List.getElem_drop]
  exact keep_of_lt (by omega) (by omega)

/-- **A full page** has the next rows, and a cursor. -/
theorem answer_full (hlimit : 0 < limit) (h : place + limit < wantedFrom keep L) :
    answer keep limit item encode (L.drop place)
      = (((L.drop place).take limit).map item, (L[place + limit - 1]?).map encode) := by
  have hle : wantedFrom keep L ≤ L.length := wantedFrom_le
  have hall : ((L.drop place).take (limit + 1)).filter keep = (L.drop place).take (limit + 1) :=
    filter_take_drop (by omega)
  have hlength : ((L.drop place).take (limit + 1)).length = limit + 1 := by
    rw [List.length_take, List.length_drop]
    omega
  have hlast : ((L.drop place).take (limit + 1))[limit - 1]? = L[place + limit - 1]? := by
    rw [List.getElem?_take_of_lt (by omega), List.getElem?_drop]
    congr 1
    omega
  unfold answer page
  rw [hall, if_pos (by omega), List.take_take, min_eq_left (Nat.le_succ _), hlast]

/-- **Another page is the last one.** -/
theorem answer_last (hplace : place ≤ wantedFrom keep L) (h : wantedFrom keep L ≤ place + limit) :
    answer keep limit item encode (L.drop place)
      = ((((L.drop place).take (limit + 1)).filter keep).map item, none) := by
  have hfew : (((L.drop place).take (limit + 1)).filter keep).length ≤ limit := by
    by_cases hshort : L.length ≤ place + limit
    · refine (List.length_filter_le ..).trans ?_
      rw [List.length_take, List.length_drop]
      omega
    · -- the first row that is not wanted is among those fetched
      have hindex : wantedFrom keep L < L.length := by omega
      have hmem : L[wantedFrom keep L] ∈ (L.drop place).take (limit + 1) := by
        refine List.mem_iff_getElem.2 ⟨wantedFrom keep L - place, ?_, ?_⟩
        · rw [List.length_take, List.length_drop]
          omega
        · rw [List.getElem_take, List.getElem_drop]
          congr 1
          omega
      have hlt : (((L.drop place).take (limit + 1)).filter keep).length
          < ((L.drop place).take (limit + 1)).length :=
        List.length_filter_lt_length_iff_exists.2 ⟨_, hmem, by simp [keep_wantedFrom hindex]⟩
      rw [List.length_take] at hlt
      omega
  unfold answer page
  rw [if_neg (Nat.not_lt.2 hfew), List.take_of_length_le hfew]
  rfl

/-! ## Walks -/

variable {request : Option γ → Option (List β × Option γ)} {decode : γ → Option κ} {key : α → κ}
variable {cursor : Option γ}

/-- The cursors at the ends of the full pages are good. -/
def GoodCuts (keep good : α → Bool) (limit : ℕ) (L : List α) : Prop :=
  ∀ m, 0 < m → m * limit < wantedFrom keep L → ∀ x ∈ L[m * limit - 1]?, good x = true

/-- The place of the last page. -/
def lastPage (keep : α → Bool) (limit : ℕ) (L : List α) : ℕ :=
  (wantedFrom keep L - 1) / limit * limit

theorem lastPage_le : lastPage keep limit L ≤ wantedFrom keep L - 1 := Nat.div_mul_le_self ..

theorem le_lastPage_add (hlimit : 0 < limit) :
    wantedFrom keep L ≤ lastPage keep limit L + limit := by
  have hlt := Nat.lt_div_mul_add (a := wantedFrom keep L - 1) hlimit
  unfold lastPage
  omega

/-- **The next cursor** is one of the next page, if it is good. -/
theorem Served.at_next (h : Served request L keep good limit item encode decode key)
    (hlimit : 0 < limit) {x : α} (hx : L[place + limit - 1]? = some x) :
    (good x = true → At decode key L (some (encode x)) (place + limit)) ∧
      (good x = false → At decode key L (some (encode x)) 0) := by
  have hdecode := h.decode_encode x (List.mem_of_getElem? hx)
  constructor
  · intro hgood
    show decode (encode x) = _
    rw [hdecode, if_pos hgood, if_neg (by omega), hx]
    rfl
  · intro hbad
    show decode (encode x) = _
    rw [hdecode, hbad]
    rfl

/-- **What a walk returns**, if the cursors are good: all rows up to the last page, and what is
wanted of that one. -/
theorem Served.walk_eq (h : Served request L keep good limit item encode decode key)
    (hlimit : 0 < limit) (hgood : GoodCuts keep good limit L) (n m : ℕ)
    (hplace : (m + n) * limit = lastPage keep limit L) (hat : At decode key L cursor (m * limit)) :
    walk request (n + 1) cursor = some
      ((((L.drop (m * limit)).take (n * limit + limit + 1)).filter keep).map item) := by
  have hle : lastPage keep limit L ≤ wantedFrom keep L - 1 := lastPage_le
  have hwanted : wantedFrom keep L ≤ L.length := wantedFrom_le
  induction n generalizing m cursor with
  | zero =>
      rw [Nat.add_zero] at hplace
      unfold walk
      rw [h.request_eq cursor _ (by omega) hat, answer_last (by omega)
        (by rw [hplace]; exact le_lastPage_add hlimit), Nat.zero_mul, Nat.zero_add]
  | succ n ih =>
      have hexpand : (m + (n + 1)) * limit = m * limit + limit + n * limit := by ring
      have hnext : (m + 1) * limit = m * limit + limit := by ring
      have hfull : m * limit + limit < wantedFrom keep L := by omega
      have hsome : m * limit + limit - 1 < L.length := by omega
      have hx := List.getElem?_eq_getElem hsome
      have hcut : good L[m * limit + limit - 1] = true := by
        refine hgood (m + 1) (Nat.succ_pos m) (by omega) _ ?_
        rw [hnext]
        exact hx
      have hat' : At decode key L (some (encode L[m * limit + limit - 1])) ((m + 1) * limit) := by
        rw [hnext]
        exact (h.at_next hlimit hx).1 hcut
      have hrest := ih (m + 1) (by rw [← hplace]; ring) hat'
      have hsplit : ((L.drop (m * limit)).take ((n + 1) * limit + limit + 1)).filter keep
          = (L.drop (m * limit)).take limit
            ++ ((L.drop ((m + 1) * limit)).take (n * limit + limit + 1)).filter keep := by
        rw [show (n + 1) * limit + limit + 1 = limit + (n * limit + limit + 1) by ring,
          List.take_add, List.filter_append, filter_take_drop hfull.le, List.drop_drop, hnext]
      rw [walk, h.request_eq cursor _ (by omega) hat, answer_full hlimit hfull, hx]
      show (walk request (n + 1) (some (encode L[m * limit + limit - 1]))).map _ = _
      rw [hrest, Option.map_some, hsplit, List.map_append]

/-- **A cursor that is not good begins anew**, and the walk does not end. -/
theorem Served.walk_eq_none (h : Served request L keep good limit item encode decode key)
    (hlimit : 0 < limit) {bad : ℕ} (hbad : bad * limit < wantedFrom keep L)
    (hcut : ∃ x ∈ L[bad * limit - 1]?, good x = false)
    (hgood : ∀ m, 0 < m → m < bad → ∀ x ∈ L[m * limit - 1]?, good x = true) (fuel : ℕ) :
    ∀ m < bad, ∀ cursor, At decode key L cursor (m * limit) → walk request fuel cursor = none := by
  have hwanted : wantedFrom keep L ≤ L.length := wantedFrom_le
  induction fuel with
  | zero => exact fun _ _ _ _ => rfl
  | succ fuel ih =>
      intro m hm cursor hat
      have hnext : (m + 1) * limit = m * limit + limit := by ring
      have hle : (m + 1) * limit ≤ bad * limit := Nat.mul_le_mul_right limit hm
      have hfull : m * limit + limit < wantedFrom keep L := by omega
      have hx : L[m * limit + limit - 1]? = some L[m * limit + limit - 1] :=
        List.getElem?_eq_getElem (by omega)
      have hrest : walk request fuel (some (encode L[m * limit + limit - 1])) = none := by
        rcases Nat.lt_or_eq_of_le (Nat.succ_le_of_lt hm) with hlt | heq
        · refine ih (m + 1) hlt _ ?_
          rw [hnext]
          refine (h.at_next hlimit hx).1 (hgood (m + 1) (Nat.succ_pos m) hlt _ ?_)
          rw [hnext]
          exact hx
        · obtain ⟨x, hmem, hxbad⟩ := hcut
          rw [← heq, Nat.succ_eq_add_one, hnext, hx] at hmem
          obtain rfl := Option.some.inj hmem
          refine ih 0 (by omega) _ ?_
          rw [Nat.zero_mul]
          exact (h.at_next hlimit hx).2 hxbad
      rw [walk, h.request_eq cursor _ (by omega) hat, answer_full hlimit hfull, hx]
      show (walk request fuel (some (encode L[m * limit + limit - 1]))).map _ = none
      rw [hrest]
      rfl

/-- **When a walk returns every row that is wanted**: the cursors at the ends of full pages are
good, and no row after the last page is wanted. -/
theorem Served.complete_iff (h : Served request L keep good limit item encode decode key)
    (hlimit : 0 < limit) : Walked request ((L.filter keep).map item) ↔
      GoodCuts keep good limit L ∧
        ∀ x ∈ L.drop (lastPage keep limit L + limit + 1), keep x = false := by
  have hstart : At decode key L none (0 * limit) := by
    rw [Nat.zero_mul]
    rfl
  have hend (hgood : GoodCuts keep good limit L) : walk request
      ((wantedFrom keep L - 1) / limit + 1) none
        = some (((L.take (lastPage keep limit L + limit + 1)).filter keep).map item) := by
    have := h.walk_eq hlimit hgood ((wantedFrom keep L - 1) / limit) 0
      (by rw [Nat.zero_add]; rfl) hstart
    rwa [Nat.zero_mul, List.drop_zero] at this
  have hsplit := List.take_append_drop (lastPage keep limit L + limit + 1) L
  constructor
  · rintro ⟨fuel, hwalk⟩
    have hgood : GoodCuts keep good limit L := by
      by_contra hnot
      unfold GoodCuts at hnot
      push Not at hnot
      have hfind : ∃ m, 0 < m ∧ m * limit < wantedFrom keep L ∧
          ∃ x ∈ L[m * limit - 1]?, good x ≠ true := hnot
      classical
      obtain ⟨hpos, hlt, x, hmem, hxbad⟩ := Nat.find_spec hfind
      have hnone := h.walk_eq_none hlimit hlt ⟨x, hmem, by simpa using hxbad⟩
        (fun m hm hmlt x hx => by
          by_contra hxnot
          refine Nat.find_min hfind hmlt ⟨hm, ?_, x, hx, hxnot⟩
          exact (Nat.mul_le_mul_right limit hmlt.le).trans_lt hlt) fuel 0 hpos none hstart
      rw [hnone] at hwalk
      cases hwalk
    refine ⟨hgood, fun x hx => ?_⟩
    have hsame := congrArg List.length (walk_unique hwalk (hend hgood))
    rw [List.length_map, List.length_map] at hsame
    conv at hsame =>
      lhs
      rw [← hsplit]
    rw [List.filter_append, List.length_append] at hsame
    have hnone : (L.drop (lastPage keep limit L + limit + 1)).filter keep = [] :=
      List.length_eq_zero_iff.1 (by omega)
    simpa using List.filter_eq_nil_iff.1 hnone x hx
  · rintro ⟨hgood, hrest⟩
    refine ⟨_, (hend hgood).trans ?_⟩
    have hnone : (L.drop (lastPage keep limit L + limit + 1)).filter keep = [] :=
      List.filter_eq_nil_iff.2 fun x hx => by simp [hrest x hx]
    conv_rhs => rw [← hsplit]
    rw [List.filter_append, hnone, List.append_nil]

/-- **With good cursors and no rows to drop a walk returns every row.** -/
theorem Served.complete (h : Served request L keep good limit item encode decode key)
    (hlimit : 0 < limit) (hkeep : ∀ x ∈ L, keep x = true) (hgood : ∀ x ∈ L, good x = true) :
    Walked request (L.map item) := by
  have hwanted : wantedFrom keep L = L.length :=
    List.findIdx_eq_length.2 fun x hx => by simp [hkeep x hx]
  have hlast : wantedFrom keep L ≤ lastPage keep limit L + limit := le_lastPage_add hlimit
  have hwalked := (h.complete_iff hlimit).2
    ⟨fun m _ _ x hx => hgood x (List.mem_of_getElem? hx), fun x hx => by
      rw [List.drop_of_length_le (by omega)] at hx
      cases hx⟩
  rwa [List.filter_eq_self.2 hkeep] at hwalked

end

end

end Paging
