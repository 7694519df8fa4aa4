import SlotMachine.Listener.Directory

/-!
# Paging through the directory

A client follows the cursors of the directory from page to page.  The handles whose auction
runs are fetched by their expiration, and those without a premium are dropped afterwards; a
page that is short for it has no cursor.

* `ListenerApiState.Projected`, `projected_run` — what the projections promise of the stores.
* `active_served`, `soon_served` — **the requests serve a sorted listing**.
* `active_pages_complete_iff` — **when the pages have every handle with a premium**.
* `soon_pages_complete_iff` — **the pages have every handle that expires soon**, up to the last
  second of the clock.
-/

namespace SlotMachine.Listener

open Paging

/-! ## The stores -/

/-- What the projections promise: slots and names are stored under their own hashes. -/
structure ListenerApiState.Projected (state : ListenerApiState) : Prop where
  slot_hash : ∀ key slot, state.handleSlots.inner.current key = some slot →
    slot.handleHash = key.2
  expiration_le : ∀ key slot, state.handleSlots.inner.current key = some slot →
    slot.expiration ≤ u64Max
  name_inj : ∀ registry hash hash' reg reg',
    state.registrations.current (registry, hash) = some reg →
    state.registrations.current (registry, hash') = some reg' → reg.handle = reg'.handle →
    hash = hash'

/-- The registration is of a handle with the hash it is stored under. -/
def ActionLog.NamesHash (treeHash : String → Bytes) : ActionLog → Prop
  | .register e => treeHash e.precommitValue.handle = e.createdHandleSlot.handleHash
  | .expire e => treeHash e.precommitValue.handle = e.createdSlot.handleHash
  | _ => True

theorem mem_handleSlotOps {valueHash : HandleSlotValue → Bytes} {registry : Bytes} {height : ℕ}
    {logs : List ActionLog} {parentFor : Bytes → Option SlotParentLineage}
    {bound : ℕ} (hlogs : ∀ log ∈ logs, ∀ value ∈ log.createdHandleSlots, value.expiration < bound)
    {key : Bytes × Bytes} {slot : StoredHandleSlot}
    (h : .replace key slot ∈ handleSlotOps valueHash registry height logs parentFor) :
    slot.handleHash = key.2 ∧ slot.expiration < bound := by
  obtain ⟨value, hvalue, heq⟩ := List.mem_map.1 h
  obtain ⟨log, hlog, hcreated⟩ := List.mem_flatMap.1 hvalue
  cases heq
  exact ⟨rfl, hlogs log hlog value hcreated⟩

theorem mem_registrationOps {treeHash : String → Bytes} {registry : Bytes} {height : ℕ}
    {logs : List ActionLog} (hlogs : ∀ log ∈ logs, log.NamesHash treeHash)
    {key : Bytes × Bytes} {reg : StoredRegistration}
    (h : .replace key reg ∈ registrationOps registry height logs) :
    treeHash reg.handle = key.2 := by
  obtain ⟨stored, hstored, heq⟩ := List.mem_map.1 h
  obtain ⟨log, hlog, hregistration⟩ := List.mem_filterMap.1 hstored
  have hnames := hlogs log hlog
  cases heq
  cases log with
  | register e | expire e =>
      cases hregistration
      exact hnames
  | _ => cases hregistration

/-- **The projections keep the promise**, in any order and number, with reorganisations. -/
theorem projected_run {state : ListenerApiState} {treeHash : String → Bytes}
    {slotOps : List (StoreOp StoredHandleSlot)} {regOps : List (StoreOp StoredRegistration)}
    (hslots : ∀ key slot, .replace key slot ∈ slotOps →
      slot.handleHash = key.2 ∧ slot.expiration ≤ u64Max)
    (hregs : ∀ key reg, .replace key reg ∈ regOps → treeHash reg.handle = key.2)
    (hinner : state.handleSlots.inner
      = RecordStore.empty.run StoredHandleSlot.confirmationHeight slotOps)
    (hregistrations : state.registrations
      = RecordStore.empty.run StoredRegistration.confirmationHeight regOps) : state.Projected := by
  have hnames {key : Bytes × Bytes} {reg : StoredRegistration}
      (h : state.registrations.current key = some reg) : treeHash reg.handle = key.2 := by
    rw [hregistrations] at h
    exact hregs key reg (RecordStore.mem_of_current_run h)
  have hslot {key : Bytes × Bytes} {slot : StoredHandleSlot}
      (h : state.handleSlots.inner.current key = some slot) :
      slot.handleHash = key.2 ∧ slot.expiration ≤ u64Max := by
    rw [hinner] at h
    exact hslots key slot (RecordStore.mem_of_current_run h)
  refine ⟨fun key slot h => (hslot h).1, fun key slot h => (hslot h).2, ?_⟩
  intro registry hash hash' reg reg' h h' heq
  calc hash = treeHash reg.handle := (hnames h).symm
    _ = treeHash reg'.handle := by rw [heq]
    _ = hash' := hnames h'

/-! ## The listing -/

/-- A handle that is canonical. -/
def canonical (row : String × StoredHandleSlot) : Bool := isCanonicalHandle (utf8Bytes row.1)

/-- The cursor of a row. -/
def rowCursor (row : String × StoredHandleSlot) : String := encodeCursor row.2.expiration row.1

/-- The key that a cursor is read as. -/
def cursorKey (cursor : String) : Option (ℕ ×ₗ String) := (decodeCursor cursor).map toLex

/-- The named handles of a window, in order. -/
def ListenerApiState.listed (state : ListenerApiState) (registry : Bytes) (window : ℕ × ℕ) :
    List (String × StoredHandleSlot) :=
  listing rowKey (state.namedRows registry window)

section

variable {state : ListenerApiState} {registry : Bytes} {window : ℕ × ℕ}

/-- **Each row has a key of its own.** -/
theorem nodup_rowKeys (h : state.Projected) (registry : Bytes) (window : ℕ × ℕ) :
    ((state.namedRows registry window).map rowKey).Nodup := by
  unfold ListenerApiState.namedRows MemoryHandleSlotStore.values
  rw [List.filterMap_filterMap, List.filterMap_filterMap, List.map_filterMap]
  refine state.handleSlots.nodup_keys.filterMap ?_
  intro key key' b hb hb'
  have hread {key : Bytes × Bytes} (hb : b ∈ Option.map rowKey ((state.handleSlots.inner key).bind
      fun record => (windowSlot registry window.1 window.2 record).bind
        (namedRow state.registrations registry none))) :
      key.1 = registry ∧ ∃ reg, state.registrations.current (registry, key.2) = some reg ∧
        reg.handle = (ofLex b).2 := by
    obtain ⟨row, hrow, rfl⟩ := Option.map_eq_some_iff.1 hb
    obtain ⟨record, hrecord, hslot⟩ := Option.bind_eq_some_iff.1 hrow
    obtain ⟨slot, hwindow, hnamed⟩ := Option.bind_eq_some_iff.1 hslot
    obtain ⟨hregistry, hcurrent, -⟩ := windowSlot_eq_some.1 hwindow
    obtain ⟨-, reg, hreg, hname, -⟩ := namedRow_eq_some.1 hnamed
    have hkey := state.handleSlots.keyed key record hrecord
    have hhash : slot.handleHash = key.2 := by
      refine h.slot_hash key slot ?_
      unfold RecordStore.current
      rw [hrecord]
      exact hcurrent
    rw [hhash] at hreg
    exact ⟨by rw [← hkey]; exact hregistry, reg, hreg, hname⟩
  obtain ⟨hregistry, reg, hreg, hname⟩ := hread hb
  obtain ⟨hregistry', reg', hreg', hname'⟩ := hread hb'
  exact Prod.ext (hregistry.trans hregistry'.symm)
    (h.name_inj registry _ _ reg reg' hreg hreg' (hname.trans hname'.symm))

theorem mem_listed {row : String × StoredHandleSlot} : row ∈ state.listed registry window ↔
    state.Named registry row ∧ window.1 ≤ row.2.expiration ∧ row.2.expiration ≤ window.2 := by
  rw [← mem_namedRows]
  exact perm_listing.mem_iff

theorem pairwise_listed (h : state.Projected) :
    (state.listed registry window).Pairwise fun x y => rowKey x < rowKey y :=
  pairwise_listing (nodup_rowKeys h registry window)

/-- **A cursor is read as its row**, if the handle is canonical. -/
theorem cursorKey_rowCursor {row : String × StoredHandleSlot} (h : row.2.expiration ≤ u64Max) :
    cursorKey (rowCursor row) = if canonical row then some (rowKey row) else none := by
  have hlt : row.2.expiration < 2 ^ 64 := by
    unfold u64Max at h
    omega
  unfold cursorKey rowCursor
  rw [decodeCursor_encodeCursor hlt]
  unfold canonical
  split
  · rfl
  · rfl

end

/-! ## The requests -/

/-- The keys of a page, and its next cursor.  A request that fails has no page. -/
def pageOf {Item : Type} (key : Item → ℕ ×ₗ String) :
    Option (Except ApiError (ExpiringResponse Item)) → Option (List (ℕ ×ₗ String) × Option String)
  | some (.ok response) => some (response.items.map key, response.nextCursor)
  | _ => none

/-- A request for a page of the active auctions, at some time. -/
def activeRequest (P : PricingSdk) (now : ℕ) (state : ListenerApiState)
    (launcherId : Option String) (limit : ℕ) (cursor : Option String) :
    Option (List (ℕ ×ₗ String) × Option String) :=
  pageOf (fun item => toLex (item.expiration, item.handle))
    (lookupExpiringActive P now now state ⟨cursor, some limit, launcherId⟩)

/-- A request for a page of the handles that expire soon. -/
def soonRequest (P : PricingSdk) (now : ℕ) (state : ListenerApiState)
    (launcherId : Option String) (limit : ℕ) (cursor : Option String) :
    Option (List (ℕ ×ₗ String) × Option String) :=
  pageOf (fun item => toLex (item.expiration, item.handle))
    (lookupExpiringSoon P now now state ⟨cursor, some limit, launcherId⟩)

section

variable {P : PricingSdk} {now : ℕ} {state : ListenerApiState} {launcherId : Option String}
variable {registry : Bytes} {window : ℕ × ℕ} {limit : ℕ} {cursor : Option String}

theorem pageLimit_some (hmax : limit ≤ 50) : pageLimit ⟨cursor, some limit, launcherId⟩ = limit :=
  min_eq_left hmax

/-- **The cursor of a page that has a row.** -/
theorem nextCursor_map {Item : Type} {expiration : Item → ℕ} {handle : Item → String}
    (f : String × StoredHandleSlot → Item)
    (hexpiration : ∀ row, expiration (f row) = row.2.expiration)
    (hhandle : ∀ row, handle (f row) = row.1) (hpos : 0 < limit)
    (rows : List (String × StoredHandleSlot)) :
    nextCursor expiration handle limit (rows.map f)
      = some ((if limit < rows.length then rows[limit - 1]? else none).map rowCursor) := by
  unfold nextCursor checkedSub
  rw [List.length_map]
  by_cases hmore : limit < rows.length
  · have hlast : rows[limit - 1]? = some rows[limit - 1] := List.getElem?_eq_getElem (by omega)
    rw [if_pos hmore, if_pos hmore, if_pos (Nat.succ_le_of_lt hpos)]
    show ((rows.map f)[limit - 1]?).bind _ = _
    rw [List.getElem?_map, hlast]
    show some (some (encodeCursor _ _)) = some (some (encodeCursor _ _))
    rw [hexpiration, hhandle]
  · rw [if_neg hmore, if_neg hmore]
    rfl

/-- **The rows of a page** are the next ones of the listing. -/
theorem fetched_eq (hprojected : state.Projected) (hmax : limit ≤ 50) {place : ℕ}
    (hplace : place ≤ (state.listed registry window).length)
    (hat : At cursorKey rowKey (state.listed registry window) cursor place) :
    state.fetched ⟨cursor, some limit, launcherId⟩ registry window
      = ((state.listed registry window).drop place).take (limit + 1) := by
  unfold ListenerApiState.fetched
  rw [pageLimit_some hmax, Option.map_bind]
  exact fetch_at (nodup_rowKeys hprojected registry window) hplace hat (limit + 1)

/-- **A page of the handles that expire soon.** -/
theorem soonRequest_eq (hserves : state.Serves now launcherId registry) (hpos : 0 < limit)
    (hmax : limit ≤ 50) : soonRequest P now state launcherId limit cursor =
      let answered := page (fun _ => true) limit
        (state.fetched ⟨cursor, some limit, launcherId⟩ registry (soonExpirationWindow now))
      some (answered.1.map rowKey, answered.2.map rowCursor) := by
  unfold soonRequest
  rw [lookupExpiringSoon_eq hserves]
  dsimp only
  rw [pageLimit_some hmax, nextCursor_map (soonItem P _) (fun _ => rfl) (fun _ => rfl) hpos]
  unfold page
  rw [List.filter_true, ← List.map_take]
  show some (List.map _ (List.map _ _), _) = _
  rw [List.map_map]
  rfl

/-- **A page of the active auctions**: the rows without a premium are dropped. -/
theorem activeRequest_eq (hle : ∀ bit ∈ P.premiumBitsList, bit ≤ premiumPrecision)
    (hlength : P.premiumBitsList.length < 64) (hserves : state.Serves now launcherId registry)
    (hpos : 0 < limit) (hmax : limit ≤ 50) :
    activeRequest P now state launcherId limit cursor =
      let answered := page (fun row => decide (premium P state.projected row ≠ 0)) limit
        (state.fetched ⟨cursor, some limit, launcherId⟩ registry
          (activeExpirationWindow now state.projected))
      some (answered.1.map rowKey, answered.2.map rowCursor) := by
  unfold activeRequest
  rw [lookupExpiringActive_eq hle hlength hserves]
  dsimp only
  rw [pageLimit_some hmax, List.filter_map,
    nextCursor_map (fun row => activeItem P _ _ _ row) (fun _ => rfl) (fun _ => rfl) hpos]
  unfold page
  rw [← List.map_take]
  show some (List.map _ (List.map _ _), _) = _
  rw [List.map_map]
  rfl

/-- **The requests for the handles that expire soon serve a listing**, with every row. -/
theorem soon_served (hprojected : state.Projected)
    (hserves : state.Serves now launcherId registry) (hpos : 0 < limit)
    (hmax : limit ≤ 50) :
    Served (soonRequest P now state launcherId limit)
      (state.listed registry (soonExpirationWindow now)) (fun _ => true) canonical limit rowKey
      rowCursor cursorKey rowKey where
  request_eq cursor place hplace hat := by
    rw [soonRequest_eq hserves hpos hmax, fetched_eq hprojected hmax hplace hat]
    rfl
  decode_encode row hrow := cursorKey_rowCursor
    ((mem_listed.1 hrow).2.2.trans (min_le_right ..))

/-- **The requests for the active auctions serve a listing**, without the rows that have no
premium. -/
theorem active_served (hle : ∀ bit ∈ P.premiumBitsList, bit ≤ premiumPrecision)
    (hlength : P.premiumBitsList.length < 64) (hprojected : state.Projected)
    (hserves : state.Serves now launcherId registry) (hpos : 0 < limit) (hmax : limit ≤ 50) :
    Served (activeRequest P now state launcherId limit)
      (state.listed registry (activeExpirationWindow now state.projected))
      (fun row => decide (premium P state.projected row ≠ 0)) canonical limit rowKey rowCursor
      cursorKey rowKey where
  request_eq cursor place hplace hat := by
    rw [activeRequest_eq hle hlength hserves hpos hmax, fetched_eq hprojected hmax hplace hat]
    rfl
  decode_encode row hrow := cursorKey_rowCursor
    ((mem_listed.1 hrow).2.2.trans ((min_le_right ..).trans (min_le_right ..)))

end

/-! ## The active auctions -/

/-- A named handle that expired, with a premium. -/
def ListenerApiState.ActiveAuction (P : PricingSdk) (state : ListenerApiState) (registry : Bytes)
    (now : ℕ) (k : ℕ ×ₗ String) : Prop :=
  ∃ row, state.Named registry row ∧ rowKey row = k ∧ row.2.expiration ≤ now ∧
    premium P state.projected row ≠ 0

section

variable {P : PricingSdk} {now : ℕ} {state : ListenerApiState} {registry : Bytes}

/-- **The window of the auctions** has every handle that expired and has a premium. -/
theorem activeWindow_iff {projected : ℕ} {row : String × StoredHandleSlot}
    (h : premium P projected row ≠ 0) :
    ((activeExpirationWindow now projected).1 ≤ row.2.expiration ∧
      row.2.expiration ≤ (activeExpirationWindow now projected).2) ↔ row.2.expiration ≤ now := by
  unfold premium auctionPremium at h
  have hexpired : ¬ projected < row.2.expiration := by
    intro hlt
    rw [if_pos hlt] at h
    exact h rfl
  have hrunning : ¬ auctionDurationSeconds ≤ projected - row.2.expiration := by
    intro hend
    rw [if_neg hexpired, if_pos hend] at h
    exact h rfl
  unfold activeExpirationWindow saturatingAdd64
  dsimp only
  split <;> omega

/-- **What is wanted of the active auctions** is a part of the listing. -/
theorem mem_active {k : ℕ ×ₗ String} :
    k ∈ ((state.listed registry (activeExpirationWindow now state.projected)).filter
        fun row => decide (premium P state.projected row ≠ 0)).map rowKey ↔
      state.ActiveAuction P registry now k := by
  rw [List.mem_map]
  constructor
  · rintro ⟨row, hrow, hkey⟩
    obtain ⟨hlisted, hpremium⟩ := List.mem_filter.1 hrow
    have hpremium := of_decide_eq_true hpremium
    obtain ⟨hnamed, hwindow⟩ := mem_listed.1 hlisted
    exact ⟨row, hnamed, hkey, (activeWindow_iff hpremium).1 hwindow, hpremium⟩
  · rintro ⟨row, hnamed, hkey, hexpired, hpremium⟩
    exact ⟨row, List.mem_filter.2 ⟨mem_listed.2 ⟨hnamed, (activeWindow_iff hpremium).2 hexpired⟩,
      decide_eq_true hpremium⟩, hkey⟩

theorem returns_active_iff (hprojected : state.Projected)
    {request : Option String → Option (List (ℕ ×ₗ String) × Option String)} :
    Returns request (state.ActiveAuction P registry now) ↔
      Walked request (((state.listed registry (activeExpirationWindow now state.projected)).filter
        fun row => decide (premium P state.projected row ≠ 0)).map rowKey) := by
  refine returns_iff ?_ fun k => mem_active
  rw [List.pairwise_map]
  exact (pairwise_listed hprojected).filter _

end

/-- The pages of the active auctions have every handle that expired and has a premium, each once
and in order, and no other, if and only if the cursors at the ends of the full pages are read,
those of canonical handles, and no handle that the last page did not reach has a premium. -/
theorem active_pages_complete_iff {P : PricingSdk}
    (hle : ∀ bit ∈ P.premiumBitsList, bit ≤ premiumPrecision)
    (hlength : P.premiumBitsList.length < 64) {now : ℕ} {state : ListenerApiState}
    (hprojected : state.Projected) {launcherId : Option String} {registry : Bytes}
    (hserves : state.Serves now launcherId registry) {limit : ℕ} (hpos : 0 < limit)
    (hmax : limit ≤ 50) :
    let listed := state.listed registry (activeExpirationWindow now state.projected)
    let keep := fun row => decide (premium P state.projected row ≠ 0)
    Returns (activeRequest P now state launcherId limit) (state.ActiveAuction P registry now) ↔
      GoodCuts keep canonical limit listed ∧
        ∀ row ∈ listed.drop (lastPage keep limit listed + limit + 1),
          premium P state.projected row = 0 := by
  intro listed keep
  rw [returns_active_iff hprojected,
    (active_served hle hlength hprojected hserves hpos hmax).complete_iff hpos]
  refine and_congr Iff.rfl (forall₂_congr fun row _ => ?_)
  rw [decide_eq_false_iff_not, not_not]

/-! ## The handles that expire soon -/

/-- A named handle that expires within 30 days. -/
def ListenerApiState.ExpiresSoon (state : ListenerApiState) (registry : Bytes) (now : ℕ)
    (k : ℕ ×ₗ String) : Prop :=
  ∃ row, state.Named registry row ∧ rowKey row = k ∧ now < row.2.expiration ∧
    row.2.expiration ≤ now + soonWindowSeconds

section

variable {P : PricingSdk} {now : ℕ} {state : ListenerApiState} {launcherId : Option String}
variable {registry : Bytes} {limit : ℕ}

theorem ListenerApiState.Named.expiration_le {row : String × StoredHandleSlot}
    (h : state.Named registry row) (hprojected : state.Projected) :
    row.2.expiration ≤ u64Max := by
  obtain ⟨⟨hash, hcurrent⟩, -⟩ := h
  exact hprojected.expiration_le _ _ hcurrent

/-- **The pages have all of the listing**, if the handles are canonical. -/
theorem soon_walked (hprojected : state.Projected)
    (hserves : state.Serves now launcherId registry)
    (hcanonical : ∀ row, state.Named registry row → canonical row = true) (hpos : 0 < limit)
    (hmax : limit ≤ 50) : Walked (soonRequest P now state launcherId limit)
      ((state.listed registry (soonExpirationWindow now)).map rowKey) :=
  (soon_served hprojected hserves hpos hmax).complete hpos (fun _ _ => rfl)
    fun row hrow => hcanonical row (mem_listed.1 hrow).1

/-- **What is wanted is what is listed**, except in the last second of the clock. -/
theorem mem_soon_iff (hprojected : state.Projected) :
    (∀ k, k ∈ (state.listed registry (soonExpirationWindow now)).map rowKey ↔
        state.ExpiresSoon registry now k) ↔
      now < u64Max ∨ ∀ row, state.Named registry row → row.2.expiration ≠ u64Max := by
  have hmin : (soonExpirationWindow now).1 = min (now + 1) u64Max := rfl
  have hmax : (soonExpirationWindow now).2 = min (now + soonWindowSeconds) u64Max := rfl
  constructor
  · intro hall
    by_contra hnot
    push Not at hnot
    obtain ⟨hclock, row, hnamed, hlast⟩ := hnot
    -- the window of the last second has the handle, which does not expire later
    have hlisted : rowKey row ∈ (state.listed registry (soonExpirationWindow now)).map rowKey :=
      List.mem_map_of_mem (mem_listed.2 ⟨hnamed, by omega, by omega⟩)
    obtain ⟨row', -, hkey, hlater, -⟩ := (hall _).1 hlisted
    have hsame : row'.2.expiration = row.2.expiration := congrArg (fun k => (ofLex k).1) hkey
    omega
  · intro hclock k
    have hwindow {row : String × StoredHandleSlot} (hnamed : state.Named registry row) :
        ((soonExpirationWindow now).1 ≤ row.2.expiration ∧
            row.2.expiration ≤ (soonExpirationWindow now).2) ↔
          now < row.2.expiration ∧ row.2.expiration ≤ now + soonWindowSeconds := by
      have hle := hnamed.expiration_le hprojected
      rw [hmin, hmax]
      rcases hclock with hclock | hnone
      · omega
      · have hne := hnone row hnamed
        omega
    rw [List.mem_map]
    constructor
    · rintro ⟨row, hrow, hkey⟩
      obtain ⟨hnamed, hlisted⟩ := mem_listed.1 hrow
      exact ⟨row, hnamed, hkey, (hwindow hnamed).1 hlisted⟩
    · rintro ⟨row, hnamed, hkey, hsoon⟩
      exact ⟨row, mem_listed.2 ⟨hnamed, (hwindow hnamed).2 hsoon⟩, hkey⟩

theorem returns_soon_iff (hprojected : state.Projected)
    (hserves : state.Serves now launcherId registry)
    (hcanonical : ∀ row, state.Named registry row → canonical row = true) (hpos : 0 < limit)
    (hmax : limit ≤ 50) :
    Returns (soonRequest P now state launcherId limit) (state.ExpiresSoon registry now) ↔
      now < u64Max ∨ ∀ row, state.Named registry row → row.2.expiration ≠ u64Max := by
  have hwalked := soon_walked (P := P) hprojected hserves hcanonical hpos hmax
  have hsorted : ((state.listed registry (soonExpirationWindow now)).map rowKey).Pairwise
      (· < ·) := by
    rw [List.pairwise_map]
    exact pairwise_listed hprojected
  rw [← mem_soon_iff hprojected]
  constructor
  · rintro ⟨keys, ⟨fuel, hkeys⟩, -, hmem⟩
    obtain ⟨fuel', hlisted⟩ := hwalked
    obtain rfl := walk_unique hkeys hlisted
    exact hmem
  · exact fun hmem => ⟨_, hwalked, hsorted, hmem⟩

/-- **Each page makes progress**: its next cursor is that of a handle on it, behind the cursor of
the request. -/
theorem soon_progress (hserves : state.Serves now launcherId registry)
    (hcanonical : ∀ row, state.Named registry row → canonical row = true) (hpos : 0 < limit)
    (hmax : limit ≤ 50) {cursor : Option String} {keys : List (ℕ ×ₗ String)} {next : String}
    (h : soonRequest P now state launcherId limit cursor = some (keys, some next)) :
    ∃ k ∈ keys, cursorKey next = some k ∧ ∀ k' ∈ cursor.bind cursorKey, k' < k := by
  rw [soonRequest_eq hserves hpos hmax] at h
  obtain ⟨hkeys, hnext⟩ := Prod.mk.inj (Option.some.inj h)
  obtain ⟨row, hlast, rfl⟩ := Option.map_eq_some_iff.1 hnext
  have hpage := mem_page_of_next hpos hlast
  have hfetched := mem_of_mem_fetch (mem_of_mem_page hpage)
  rw [mem_namedRows, Option.map_bind] at hfetched
  obtain ⟨⟨hnamed, -, hle⟩, hafter⟩ := hfetched
  refine ⟨rowKey row, ?_, ?_, hafter⟩
  · rw [← hkeys]
    exact List.mem_map_of_mem hpage
  · rw [cursorKey_rowCursor (hle.trans (min_le_right ..)), if_pos (hcanonical row hnamed)]

end

/-- With canonical handles, the pages of the handles that expire soon have each of them once and
in order, and no other, the cursors are read as what they were written for, and each page makes
progress: at every clock but the last second, and then too if no handle expires in it. -/
theorem soon_pages_complete_iff (P : PricingSdk) {now : ℕ} {state : ListenerApiState}
    (hprojected : state.Projected) {launcherId : Option String} {registry : Bytes}
    (hserves : state.Serves now launcherId registry)
    (hcanonical : ∀ row, state.Named registry row → canonical row = true) {limit : ℕ}
    (hpos : 0 < limit) (hmax : limit ≤ 50) :
    (Returns (soonRequest P now state launcherId limit) (state.ExpiresSoon registry now) ∧
      (∀ expiration ≤ u64Max, ∀ handle, isCanonicalHandle (utf8Bytes handle) = true →
        decodeCursor (encodeCursor expiration handle) = some (expiration, handle)) ∧
      ∀ cursor keys next,
        soonRequest P now state launcherId limit cursor = some (keys, some next) →
          ∃ k ∈ keys, cursorKey next = some k ∧ ∀ k' ∈ cursor.bind cursorKey, k' < k) ↔
      now < u64Max ∨ ∀ row, state.Named registry row → row.2.expiration ≠ u64Max := by
  rw [returns_soon_iff hprojected hserves hcanonical hpos hmax]
  refine ⟨fun h => h.1, fun h => ⟨h, ?_, ?_⟩⟩
  · intro expiration hle handle hhandle
    have hlt : expiration < 2 ^ 64 := by
      unfold u64Max at hle
      omega
    rw [decodeCursor_encodeCursor hlt, if_pos hhandle]
  · exact fun cursor keys next => soon_progress hserves hcanonical hpos hmax

/-! ## Directories -/

namespace DirectoryExample

theorem slot_of_current {entries : Entries} {key : Bytes × Bytes} {s : StoredHandleSlot}
    (h : (slots entries).inner.current key = some s) :
    ∃ e ∈ entries, key = (registry, List.replicate 32 e.2.1) ∧ s = slot e.2.1 e.2.2 := by
  induction entries with
  | nil => cases h
  | cons e entries ih =>
      unfold RecordStore.current at h ih
      have hinner : (slots (e :: entries)).inner key
          = if key = (registry, List.replicate 32 e.2.1) then
              some ⟨⟨some (slot e.2.1 e.2.2), []⟩, registry, List.replicate 32 e.2.1⟩
            else (slots entries).inner key :=
        Function.update_apply ..
      rw [hinner] at h
      by_cases hkey : key = (registry, List.replicate 32 e.2.1)
      · rw [if_pos hkey] at h
        exact ⟨e, List.mem_cons_self, hkey, (Option.some.inj h).symm⟩
      · rw [if_neg hkey] at h
        obtain ⟨e', he', hslot⟩ := ih h
        exact ⟨e', List.mem_cons_of_mem _ he', hslot⟩

theorem registration_of_current {entries : Entries} {key : Bytes × Bytes} {reg : StoredRegistration}
    (h : (registrations entries).current key = some reg) :
    ∃ e ∈ entries, key = (registry, List.replicate 32 e.2.1) ∧ reg.handle = e.1 := by
  induction entries with
  | nil => cases h
  | cons e entries ih =>
      unfold RecordStore.current at h ih
      have hinner : registrations (e :: entries) key
          = if key = (registry, List.replicate 32 e.2.1) then
              some ⟨⟨some (registration e.1 e.2.1), []⟩, registry, List.replicate 32 e.2.1⟩
            else registrations entries key :=
        Function.update_apply ..
      rw [hinner] at h
      by_cases hkey : key = (registry, List.replicate 32 e.2.1)
      · rw [if_pos hkey] at h
        exact ⟨e, List.mem_cons_self, hkey, by rw [← Option.some.inj h]; rfl⟩
      · rw [if_neg hkey] at h
        obtain ⟨e', he', hreg⟩ := ih h
        exact ⟨e', List.mem_cons_of_mem _ he', hreg⟩

/-- Handles with their own hashes are stored as the projections store them. -/
theorem projected {entries : Entries} (hexpiration : ∀ e ∈ entries, e.2.2 ≤ u64Max)
    (hnames : ∀ e ∈ entries, ∀ e' ∈ entries, e.1 = e'.1 → e.2.1 = e'.2.1) (now : ℕ) :
    (state entries now).Projected := by
  refine ⟨fun key s h => ?_, fun key s h => ?_, fun registry hash hash' reg reg' h h' heq => ?_⟩
  · obtain ⟨e, -, rfl, rfl⟩ := slot_of_current h
    rfl
  · obtain ⟨e, he, -, rfl⟩ := slot_of_current h
    exact hexpiration e he
  · obtain ⟨e, he, hkey, hname⟩ := registration_of_current h
    obtain ⟨e', he', hkey', hname'⟩ := registration_of_current h'
    have hhash := hnames e he e' he' (hname.symm.trans (heq.trans hname'))
    rw [(Prod.mk.inj hkey).2, (Prod.mk.inj hkey').2, hhash]

theorem canonical_named {entries : Entries}
    (hentries : ∀ e ∈ entries, isCanonicalHandle (utf8Bytes e.1) = true) {now : ℕ}
    {row : String × StoredHandleSlot} (h : (state entries now).Named registry row) :
    canonical row = true := by
  obtain ⟨-, reg, hreg, hname, -⟩ := h
  obtain ⟨e, he, -, hhandle⟩ := registration_of_current hreg
  unfold canonical
  rw [← hname, hhandle]
  exact hentries e he

/-- Two handles with a premium. -/
def expired : Entries := [("alice", 2, 9913600), ("bob", 3, 9950000)]

/-- Before them, one that has been expired for all but 100 seconds of the 28 days. -/
def decayed : Entries := ("dora", 4, 7581320) :: expired

/-- Two handles that expire soon. -/
def soon : Entries := [("alice", 2, 10000100), ("bob", 3, 10086400)]

/-- A handle that expires in the last second of the clock. -/
def last : Entries := [("alice", 2, u64Max)]

theorem projected_expired : (state expired 10000000).Projected :=
  projected (by decide) (by decide) 10000000

theorem projected_decayed : (state decayed 10000000).Projected :=
  projected (by decide) (by decide) 10000000

theorem projected_soon : (state soon 10000000).Projected :=
  projected (by decide) (by decide) 10000000

theorem projected_last : (state last u64Max).Projected :=
  projected (by decide) (by decide) u64Max

/-- Rows in order are listed as they are stored. -/
theorem listed_eq {entries : Entries} {now : ℕ} {window : ℕ × ℕ}
    {rows : List (String × StoredHandleSlot)}
    (hrows : (state entries now).namedRows registry window = rows)
    (hsorted : rows.Pairwise fun x y => rowKey x ≤ rowKey y) :
    (state entries now).listed registry window = rows := by
  unfold ListenerApiState.listed
  rw [hrows, listing_eq_self hsorted]

theorem listed_expired : (state expired 10000000).listed registry
    (activeExpirationWindow 10000000 (state expired 10000000).projected)
      = [("alice", slot 2 9913600), ("bob", slot 3 9950000)] :=
  listed_eq (by decide +kernel) (by decide +kernel)

theorem listed_decayed : (state decayed 10000000).listed registry
    (activeExpirationWindow 10000000 (state decayed 10000000).projected)
      = [("dora", slot 4 7581320), ("alice", slot 2 9913600), ("bob", slot 3 9950000)] :=
  listed_eq (by decide +kernel) (by decide +kernel)

end DirectoryExample

open DirectoryExample in
/-- Two pages of one row have the two handles. -/
theorem active_pages_complete_two :
    (∀ bit ∈ sdk.premiumBitsList, bit ≤ premiumPrecision) ∧ sdk.premiumBitsList.length < 64 ∧
      (state expired 10000000).Projected ∧ (state expired 10000000).Serves 10000000 none registry ∧
      Returns (activeRequest sdk 10000000 (state expired 10000000) none 1)
        ((state expired 10000000).ActiveAuction sdk registry 10000000) := by
  have hle : ∀ bit ∈ sdk.premiumBitsList, bit ≤ premiumPrecision := PremiumExample.le_precision
  have hlength : sdk.premiumBitsList.length < 64 := by decide
  refine ⟨hle, hlength, projected_expired, serves .., ?_⟩
  refine (active_pages_complete_iff hle hlength projected_expired (serves ..) (by decide)
    (by decide)).2 ?_
  rw [listed_expired]
  have hcanonical : ∀ row ∈ [("alice", slot 2 9913600), ("bob", slot 3 9950000)],
      canonical row = true := by
    decide +kernel
  refine ⟨fun _ _ _ row hrow => hcanonical row (List.mem_of_getElem? hrow), fun row hrow => ?_⟩
  rw [List.drop_of_length_le (by simp)] at hrow
  cases hrow

open DirectoryExample in
/-- **A handle without a premium ends the walk**: the page that drops it has no cursor, and the
last handle is on no page. -/
theorem active_pages_incomplete :
    ¬ Returns (activeRequest sdk 10000000 (state decayed 10000000) none 1)
      ((state decayed 10000000).ActiveAuction sdk registry 10000000) := by
  have hle : ∀ bit ∈ sdk.premiumBitsList, bit ≤ premiumPrecision := PremiumExample.le_precision
  have hlength : sdk.premiumBitsList.length < 64 := by decide
  rw [returns_active_iff projected_decayed, (active_served hle hlength projected_decayed
    (serves decayed 10000000) (by decide) (by decide)).complete_iff (by decide), listed_decayed]
  rintro ⟨-, hrest⟩
  have hbob := hrest ("bob", slot 3 9950000) (by decide +kernel)
  revert hbob
  decide +kernel

open DirectoryExample in
/-- Two pages of one row have the two handles. -/
theorem soon_pages_complete_two :
    (state soon 10000000).Projected ∧ (state soon 10000000).Serves 10000000 none registry ∧
      (∀ row, (state soon 10000000).Named registry row → canonical row = true) ∧
      Returns (soonRequest sdk 10000000 (state soon 10000000) none 1)
        ((state soon 10000000).ExpiresSoon registry 10000000) := by
  have hcanonical : ∀ row, (state soon 10000000).Named registry row → canonical row = true :=
    fun _ => canonical_named (by decide +kernel)
  exact ⟨projected_soon, serves .., hcanonical, ((soon_pages_complete_iff sdk projected_soon
    (serves ..) hcanonical (by decide) (by decide)).2 (Or.inl (by decide))).1⟩

open DirectoryExample in
/-- **In the last second of the clock** the pages have a handle that expires in it. -/
theorem soon_pages_incomplete :
    ¬ Returns (soonRequest sdk u64Max (state last u64Max) none 1)
      ((state last u64Max).ExpiresSoon registry u64Max) := by
  have hcanonical : ∀ row, (state last u64Max).Named registry row → canonical row = true :=
    fun _ => canonical_named (by decide +kernel)
  have halice : ("alice", slot 2 u64Max) ∈ (state last u64Max).namedRows registry
      (soonExpirationWindow u64Max) := by
    decide +kernel
  rw [returns_soon_iff projected_last (serves last u64Max) hcanonical (by decide) (by decide)]
  rintro (hclock | hnone)
  · exact absurd hclock (lt_irrefl _)
  · exact hnone _ (mem_namedRows.1 halice).1 rfl

end SlotMachine.Listener
