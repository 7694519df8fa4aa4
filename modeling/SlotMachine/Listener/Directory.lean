import Mathlib.Data.Prod.Lex
import Mathlib.Data.String.Basic
import SlotMachine.Ledger.Paging
import SlotMachine.Listener.AuctionPricing
import SlotMachine.Listener.Cursor
import SlotMachine.Listener.HandleStore
import SlotMachine.Listener.RegistrationStore

/-!
# The directory of expiring handles

The listener serves the named handles of a registry whose auction runs, and those that expire
soon, in pages of at most 50.  The last row of a page is looked up by its index.

* `MemoryHandleSlotStore`, `listNamedInExpirationWindow` — the store, and the rows of a window
  of expirations.
* `lookupExpiringActive`, `lookupExpiringSoon` — the two requests (`listener/api.rs`).
* `listNamedInExpirationWindow_eq` — **the rows are a fetch of a sorted listing**.
* `lookups_return_iff` — **when the requests return**: not for a limit of 0, if there is a row.
-/

namespace SlotMachine.Listener

open Paging

/-- `u64::MAX`. -/
def u64Max : ℕ := 2 ^ 64 - 1

/-- `u64::saturating_add`. -/
def saturatingAdd64 (a b : ℕ) : ℕ := min (a + b) u64Max

/-! ## The store -/

/-- `MemoryHandleSlotStore`: a hash map, which goes through its keys in some order.  A record
is put under its own key. -/
structure MemoryHandleSlotStore where
  inner : HandleSlotStore
  keys : List (Bytes × Bytes)
  nodup_keys : keys.Nodup
  mem_keys : ∀ key, key ∈ keys ↔ (inner key).isSome = true
  keyed : ∀ key record, inner key = some record →
    (record.registryLauncherId, record.handleHash) = key

namespace MemoryHandleSlotStore

theorem nodup_insert (store : MemoryHandleSlotStore) (key : Bytes × Bytes) :
    (store.keys.insert key).Nodup :=
  store.nodup_keys.insert

theorem mem_insert (store : MemoryHandleSlotStore) (record : HandleSlotRecord)
    (key : Bytes × Bytes) :
    key ∈ store.keys.insert (record.registryLauncherId, record.handleHash) ↔
      (Function.update store.inner (record.registryLauncherId, record.handleHash) (some record)
        key).isSome = true := by
  rw [List.mem_insert_iff, Function.update_apply]
  by_cases hkey : key = (record.registryLauncherId, record.handleHash)
  · simp [hkey]
  · simp [hkey, store.mem_keys]

theorem keyed_insert (store : MemoryHandleSlotStore) (record : HandleSlotRecord)
    (key : Bytes × Bytes) (record' : HandleSlotRecord)
    (h : Function.update store.inner (record.registryLauncherId, record.handleHash) (some record)
      key = some record') : (record'.registryLauncherId, record'.handleHash) = key := by
  rw [Function.update_apply] at h
  split at h
  · next hkey =>
      obtain rfl := Option.some.inj h
      exact hkey.symm
  · exact store.keyed key record' h

/-- `MemoryHandleSlotStore::new`. -/
def new : MemoryHandleSlotStore where
  inner := .empty
  keys := []
  nodup_keys := List.nodup_nil
  mem_keys := by simp [RecordStore.empty]
  keyed := by simp [RecordStore.empty]

/-- `upsert`. -/
def upsert (store : MemoryHandleSlotStore) (record : HandleSlotRecord) :
    MemoryHandleSlotStore where
  inner := Function.update store.inner (record.registryLauncherId, record.handleHash) (some record)
  keys := store.keys.insert (record.registryLauncherId, record.handleHash)
  nodup_keys := store.nodup_insert (record.registryLauncherId, record.handleHash)
  mem_keys := store.mem_insert record
  keyed := store.keyed_insert record

/-- `HashMap::values`. -/
def values (store : MemoryHandleSlotStore) : List HandleSlotRecord :=
  store.keys.filterMap store.inner

end MemoryHandleSlotStore

/-- The slot of a record, if it is one of the registry in the window. -/
def windowSlot (registry : Bytes) (minExpiration maxExpiration : ℕ) (record : HandleSlotRecord) :
    Option StoredHandleSlot :=
  if record.registryLauncherId ≠ registry then none
  else do
    let slot ← record.current
    if slot.expiration < minExpiration ∨ maxExpiration < slot.expiration then none else some slot

/-- A row behind the cursor. -/
def isAfter (after : Option (ℕ × String)) (handle : String) (slot : StoredHandleSlot) : Bool :=
  match after with
  | none => true
  | some (exp, name) =>
      decide (exp < slot.expiration) || (decide (slot.expiration = exp) && decide (name < handle))

/-- The row of a slot, if the slot has a name and is behind the cursor. -/
def namedRow (registrations : RecordStore StoredRegistration) (registry : Bytes)
    (after : Option (ℕ × String)) (slot : StoredHandleSlot) : Option (String × StoredHandleSlot) :=
  match registrations (registry, slot.handleHash) with
  | none => none
  | some regRec =>
      match regRec.current with
      | none => none
      | some regCur =>
          if regCur.handle.isEmpty then none
          else if isAfter after regCur.handle slot then some (regCur.handle, slot)
          else none

/-- The order of rows: by expiration, then by handle. -/
def rowCmp (a b : String × StoredHandleSlot) : Ordering :=
  (compare a.2.expiration b.2.expiration).then (compare a.1 b.1)

/-- `MemoryHandleSlotStore::list_named_in_expiration_window`. -/
def listNamedInExpirationWindow (store : MemoryHandleSlotStore) (registry : Bytes)
    (minExpiration maxExpiration : ℕ) (after : Option (ℕ × String)) (limit : ℕ)
    (registrations : RecordStore StoredRegistration) : List (String × StoredHandleSlot) :=
  if limit = 0 then []
  else
    let candidates := store.values.filterMap (windowSlot registry minExpiration maxExpiration)
    let out := candidates.filterMap (namedRow registrations registry after)
    (out.mergeSort fun a b => (rowCmp a b).isLE).take limit

/-! ## The requests -/

/-- `FreshnessState`. -/
structure FreshnessState where
  indexedPeakHeight : ℕ
  upstreamPeakHeight : ℕ
  lastSuccessfulPeakUnix : ℕ
  confirmedTimestamp : ℕ
  rollingBack : Bool
  resyncing : Bool
  deriving DecidableEq

/-- `is_fresh`. -/
def FreshnessState.isFresh (s : FreshnessState) (nowUnix : ℕ) : Bool :=
  if s.rollingBack || s.resyncing then false
  else if 16 < s.upstreamPeakHeight - s.indexedPeakHeight then false
  else if 300 < nowUnix - s.lastSuccessfulPeakUnix then false
  else true

/-- `ApiError`, without the id of the request. -/
structure ApiError where
  status : ℕ
  code : String
  message : String
  details : Option (List (String × ℕ))
  deriving DecidableEq

namespace ApiError

/-- `invalid_launcher_id`. -/
def invalidLauncherId : ApiError :=
  ⟨400, "invalid_launcher_id",
    "Launcher ID must be 32-byte lowercase hex without a required 0x prefix", none⟩

/-- `registry_not_followed`. -/
def registryNotFollowed : ApiError :=
  ⟨404, "registry_not_followed",
    "Registry launcher is not in the listener's configured follow set", none⟩

/-- `index_stale`. -/
def indexStale (indexedPeakHeight upstreamPeakHeight : ℕ) : ApiError :=
  ⟨503, "index_stale", "Listener index is stale, rolling back, or resyncing",
    some [("indexed_peak_height", indexedPeakHeight),
      ("upstream_peak_height", upstreamPeakHeight)]⟩

end ApiError

/-- `RegistryPricing`. -/
structure RegistryPricing where
  basePrice : ℕ
  registrationPeriod : ℕ
  deriving DecidableEq

/-- `RegistryPricing::default()`. -/
def RegistryPricing.default : RegistryPricing := ⟨5000, 31557600⟩

/-- `ListenerApiState`, as far as the directory reads it. -/
structure ListenerApiState where
  handleSlots : MemoryHandleSlotStore
  registrations : RecordStore StoredRegistration
  freshness : FreshnessState
  registryPricing : Bytes → Option RegistryPricing
  registryLauncherIds : List Bytes

/-- What the SDK supplies: the factors of the premium, and the price of a handle. -/
structure PricingSdk where
  premiumBitsList : List ℕ
  getPrice : (basePrice : ℕ) → (handle : String) → (numPeriods : ℕ) → ℕ

/-- `require_fresh`. -/
def requireFresh (state : ListenerApiState) (now : ℕ) : Except ApiError (ℕ × ℕ) :=
  if state.freshness.isFresh now then
    .ok (state.freshness.indexedPeakHeight, state.freshness.confirmedTimestamp)
  else
    .error (.indexStale state.freshness.indexedPeakHeight state.freshness.upstreamPeakHeight)

/-- The value of a hexadecimal digit. -/
def hexValue (c : Char) : Option ℕ :=
  if '0' ≤ c ∧ c ≤ '9' then some (c.toNat - 48)
  else if 'a' ≤ c ∧ c ≤ 'f' then some (c.toNat - 87)
  else if 'A' ≤ c ∧ c ≤ 'F' then some (c.toNat - 55)
  else none

/-- `hex::decode`. -/
def hexDecode : List Char → Option Bytes
  | [] => some []
  | [_] => none
  | high :: low :: rest => do
      let high ← hexValue high
      let low ← hexValue low
      let bytes ← hexDecode rest
      return Fin.ofNat 256 (16 * high + low) :: bytes

/-- `parse_launcher_id`. -/
def parseLauncherId (raw : String) : Option Bytes :=
  let raw := ("0x".toList.isPrefixOf? raw.toList).getD raw.toList
  if (utf8Bytes (String.ofList raw)).length ≠ 64 then none
  else do
    let bytes ← hexDecode raw
    if bytes.length ≠ 32 then none else some bytes

/-- `select_registry`. -/
def selectRegistry (state : ListenerApiState) (launcherIdParam : Option String) :
    Except ApiError Bytes :=
  match launcherIdParam with
  | none =>
      match state.registryLauncherIds.head? with
      | none => .error .registryNotFollowed
      | some id => .ok id
  | some raw =>
      match parseLauncherId raw with
      | none => .error .invalidLauncherId
      | some id =>
          if id ∈ state.registryLauncherIds then .ok id else .error .registryNotFollowed

/-- `SOON_WINDOW_SECONDS`. -/
def soonWindowSeconds : ℕ := 30 * 86400

/-- `PRICING_PROJECTION_OFFSET_SECONDS`. -/
def pricingProjectionOffsetSeconds : ℕ := 420

/-- `DIRECTORY_REGISTRATION_PERIODS`. -/
def directoryRegistrationPeriods : ℕ := 1

/-- `reaches_base_at`. -/
def reachesBaseAt (expiration : ℕ) : ℕ := saturatingAdd64 expiration auctionDurationSeconds

/-- `projected_pricing_timestamp`. -/
def projectedPricingTimestamp (confirmedTimestamp : ℕ) : ℕ :=
  saturatingAdd64 confirmedTimestamp pricingProjectionOffsetSeconds

/-- `base_registration_fee`. -/
def baseRegistrationFee (P : PricingSdk) (basePrice : ℕ) (handle : String) : ℕ :=
  P.getPrice basePrice handle directoryRegistrationPeriods

/-- `active_expiration_window`. -/
def activeExpirationWindow (now projected : ℕ) : ℕ × ℕ :=
  (if projected < auctionDurationSeconds then 0
    else saturatingAdd64 (projected - auctionDurationSeconds) 1, min now projected)

/-- `soon_expiration_window`. -/
def soonExpirationWindow (now : ℕ) : ℕ × ℕ :=
  (saturatingAdd64 now 1, saturatingAdd64 now soonWindowSeconds)

/-- `ExpiringQuery`, without the view. -/
structure ExpiringQuery where
  cursor : Option String
  limit : Option ℕ
  launcherId : Option String
  deriving DecidableEq

/-- `ExpiringActiveItem`. -/
structure ExpiringActiveItem where
  handle : String
  expiration : ℕ
  projectedPricingTimestamp : ℕ
  currentPremium : ℕ
  totalRegistrationFee : ℕ
  baseRegistrationFee : ℕ
  reachesBaseAt : ℕ
  deriving DecidableEq

/-- `ExpiringSoonItem`. -/
structure ExpiringSoonItem where
  handle : String
  expiration : ℕ
  baseRegistrationFee : ℕ
  deriving DecidableEq

/-- `ExpiringActiveResponse` and `ExpiringSoonResponse`. -/
structure ExpiringResponse (Item : Type) where
  items : List Item
  nextCursor : Option String
  indexedPeakHeight : ℕ
  confirmedTimestamp : ℕ
  deriving DecidableEq

/-- A difference that has to be a natural number. -/
def checkedSub (a b : ℕ) : Option ℕ := if b ≤ a then some (a - b) else none

/-- The cursor of the last row of a page, if there are more rows.  `none` is a panic. -/
def nextCursor {Item : Type} (expiration : Item → ℕ) (handle : Item → String) (limit : ℕ)
    (rows : List Item) : Option (Option String) :=
  if limit < rows.length then do
    let last ← checkedSub limit 1
    let last ← rows[last]?
    return some (encodeCursor (expiration last) (handle last))
  else some none

/-- The item of a row of the active auctions. -/
def activeItem (P : PricingSdk) (basePrice projected premium : ℕ)
    (row : String × StoredHandleSlot) : ExpiringActiveItem where
  handle := row.1
  expiration := row.2.expiration
  projectedPricingTimestamp := projected
  currentPremium := premium
  totalRegistrationFee := saturatingAdd64 (baseRegistrationFee P basePrice row.1) premium
  baseRegistrationFee := baseRegistrationFee P basePrice row.1
  reachesBaseAt := reachesBaseAt row.2.expiration

/-- The item of a row of the handles that expire soon. -/
def soonItem (P : PricingSdk) (basePrice : ℕ) (row : String × StoredHandleSlot) :
    ExpiringSoonItem where
  handle := row.1
  expiration := row.2.expiration
  baseRegistrationFee := baseRegistrationFee P basePrice row.1

/-- `query.limit.unwrap_or(50).min(50)`. -/
def pageLimit (query : ExpiringQuery) : ℕ := min (query.limit.getD 50) 50

/-- `lookup_expiring_active`, with the clock as freshness is checked, and as it is read
afterwards.  `none` is a panic. -/
def lookupExpiringActive (P : PricingSdk) (checkedAt now : ℕ) (state : ListenerApiState)
    (query : ExpiringQuery) : Option (Except ApiError (ExpiringResponse ExpiringActiveItem)) :=
  match selectRegistry state query.launcherId with
  | .error e => some (.error e)
  | .ok registry =>
      match requireFresh state checkedAt with
      | .error e => some (.error e)
      | .ok (indexedPeakHeight, confirmedTimestamp) => do
          let projected := projectedPricingTimestamp confirmedTimestamp
          let pricing := (state.registryPricing registry).getD .default
          -- a malformed cursor restarts from the beginning
          let cursor := query.cursor.bind decodeCursor
          let limit := pageLimit query
          let (minExpiration, maxExpiration) := activeExpirationWindow now projected
          let named := listNamedInExpirationWindow state.handleSlots registry minExpiration
            maxExpiration cursor (limit + 1) state.registrations
          let rows ← named.mapM fun row => do
            let premium ← auctionPremium P.premiumBitsList row.2.expiration projected
            return activeItem P pricing.basePrice projected premium row
          let rows := rows.filter fun item => item.currentPremium ≠ 0
          let nextCursor ← nextCursor ExpiringActiveItem.expiration ExpiringActiveItem.handle
            limit rows
          return .ok ⟨rows.take limit, nextCursor, indexedPeakHeight, confirmedTimestamp⟩

/-- `lookup_expiring_soon`. -/
def lookupExpiringSoon (P : PricingSdk) (checkedAt now : ℕ) (state : ListenerApiState)
    (query : ExpiringQuery) : Option (Except ApiError (ExpiringResponse ExpiringSoonItem)) :=
  match selectRegistry state query.launcherId with
  | .error e => some (.error e)
  | .ok registry =>
      match requireFresh state checkedAt with
      | .error e => some (.error e)
      | .ok (indexedPeakHeight, confirmedTimestamp) => do
          let pricing := (state.registryPricing registry).getD .default
          let cursor := query.cursor.bind decodeCursor
          let limit := pageLimit query
          let (minExpiration, maxExpiration) := soonExpirationWindow now
          let named := listNamedInExpirationWindow state.handleSlots registry minExpiration
            maxExpiration cursor (limit + 1) state.registrations
          let rows := named.map (soonItem P pricing.basePrice)
          let nextCursor ← nextCursor ExpiringSoonItem.expiration ExpiringSoonItem.handle limit rows
          return .ok ⟨rows.take limit, nextCursor, indexedPeakHeight, confirmedTimestamp⟩

/-! ## The rows are a fetch -/

/-- The key of a row. -/
def rowKey (row : String × StoredHandleSlot) : ℕ ×ₗ String := toLex (row.2.expiration, row.1)

theorem expiration_le_of_rowKey_le {a b : String × StoredHandleSlot} (h : rowKey a ≤ rowKey b) :
    a.2.expiration ≤ b.2.expiration := by
  rcases Prod.Lex.toLex_le_toLex.1 h with hlt | ⟨heq, -⟩
  · exact hlt.le
  · exact heq.le

theorem isLE_rowCmp (a b : String × StoredHandleSlot) :
    (rowCmp a b).isLE = decide (rowKey a ≤ rowKey b) := by
  rw [Bool.eq_iff_iff, decide_eq_true_eq]
  unfold rowCmp rowKey
  rw [Ordering.isLE_then_iff_or, Prod.Lex.toLex_le_toLex, compare_lt_iff_lt, compare_eq_iff_eq,
    ← Ordering.ne_gt_iff_isLE, ← Ne, compare_le_iff_le]

/-- A named handle of a registry. -/
def ListenerApiState.Named (state : ListenerApiState) (registry : Bytes)
    (row : String × StoredHandleSlot) : Prop :=
  (∃ hash, state.handleSlots.inner.current (registry, hash) = some row.2) ∧
    ∃ reg, state.registrations.current (registry, row.2.handleHash) = some reg ∧
      reg.handle = row.1 ∧ row.1 ≠ ""

/-- The named handles of a registry that expire in a window. -/
def ListenerApiState.namedRows (state : ListenerApiState) (registry : Bytes) (window : ℕ × ℕ) :
    List (String × StoredHandleSlot) :=
  (state.handleSlots.values.filterMap (windowSlot registry window.1 window.2)).filterMap
    (namedRow state.registrations registry none)

section

variable {state : ListenerApiState} {registry : Bytes} {window : ℕ × ℕ}

theorem isAfter_eq (after : Option (ℕ × String)) (row : String × StoredHandleSlot) :
    isAfter after row.1 row.2 = decide (∀ k ∈ after.map toLex, k < rowKey row) := by
  cases after with
  | none => simp [isAfter]
  | some k =>
      obtain ⟨exp, name⟩ := k
      unfold isAfter rowKey
      rw [Bool.eq_iff_iff]
      simp only [Bool.or_eq_true, Bool.and_eq_true, decide_eq_true_eq, Option.map_some,
        Option.mem_some_iff, forall_eq', Prod.Lex.toLex_lt_toLex]
      rw [@eq_comm _ row.2.expiration]

theorem namedRow_eq (registrations : RecordStore StoredRegistration)
    (after : Option (ℕ × String)) (slot : StoredHandleSlot) :
    namedRow registrations registry after slot = (namedRow registrations registry none slot).filter
      fun row => decide (∀ k ∈ after.map toLex, k < rowKey row) := by
  unfold namedRow
  cases registrations (registry, slot.handleHash) with
  | none => rfl
  | some regRec =>
      dsimp only
      cases regRec.current with
      | none => rfl
      | some regCur =>
          dsimp only
          by_cases hname : regCur.handle.isEmpty = true
          · rw [if_pos hname, if_pos hname]
            rfl
          · rw [if_neg hname, if_neg hname]
            show _ = Option.filter _ (some (regCur.handle, slot))
            rw [Option.filter_some, ← isAfter_eq]

/-- **The rows are a fetch of a sorted listing.** -/
theorem listNamedInExpirationWindow_eq (window : ℕ × ℕ) (after : Option (ℕ × String))
    (limit : ℕ) :
    listNamedInExpirationWindow state.handleSlots registry window.1 window.2 after limit
        state.registrations
      = fetch rowKey (state.namedRows registry window) (after.map toLex) limit := by
  have hrows :
      (state.handleSlots.values.filterMap (windowSlot registry window.1 window.2)).filterMap
          (namedRow state.registrations registry after)
      = (state.namedRows registry window).filter
          fun row => decide (∀ k ∈ after.map toLex, k < rowKey row) := by
    unfold ListenerApiState.namedRows
    rw [List.filter_filterMap]
    exact List.filterMap_congr fun slot _ => namedRow_eq _ _ _
  unfold listNamedInExpirationWindow fetch listing
  dsimp only
  rw [hrows]
  simp only [isLE_rowCmp]
  split
  · next hlimit => rw [hlimit, List.take_zero]
  · rfl

theorem MemoryHandleSlotStore.mem_values {store : MemoryHandleSlotStore}
    {record : HandleSlotRecord} : record ∈ store.values ↔
      store.inner (record.registryLauncherId, record.handleHash) = some record := by
  unfold values
  rw [List.mem_filterMap]
  constructor
  · rintro ⟨key, -, hrecord⟩
    rw [store.keyed key record hrecord]
    exact hrecord
  · intro hrecord
    refine ⟨_, (store.mem_keys _).2 ?_, hrecord⟩
    rw [hrecord]
    rfl

theorem windowSlot_eq_some {record : HandleSlotRecord} {slot : StoredHandleSlot} :
    windowSlot registry window.1 window.2 record = some slot ↔
      record.registryLauncherId = registry ∧ record.current = some slot ∧
        window.1 ≤ slot.expiration ∧ slot.expiration ≤ window.2 := by
  unfold windowSlot
  by_cases hregistry : record.registryLauncherId = registry
  · cases hcurrent : record.current with
    | none => simp [hregistry]
    | some slot' =>
        rw [if_neg (not_not_intro hregistry)]
        show (if slot'.expiration < window.1 ∨ window.2 < slot'.expiration then none
          else some slot') = some slot ↔ _
        constructor
        · intro h
          split at h
          · cases h
          · next hwindow =>
              obtain rfl := Option.some.inj h
              exact ⟨hregistry, rfl, by omega, by omega⟩
        · rintro ⟨-, hslot, hmin, hmax⟩
          obtain rfl := Option.some.inj hslot
          exact if_neg (by omega)
  · simp [hregistry]

theorem namedRow_eq_some {slot : StoredHandleSlot} {row : String × StoredHandleSlot} :
    namedRow state.registrations registry none slot = some row ↔ row.2 = slot ∧
      ∃ reg, state.registrations.current (registry, slot.handleHash) = some reg ∧
        reg.handle = row.1 ∧ row.1 ≠ "" := by
  unfold namedRow RecordStore.current
  cases state.registrations (registry, slot.handleHash) with
  | none => simp
  | some regRec =>
      cases hcurrent : regRec.current with
      | none => simp [hcurrent]
      | some regCur =>
          obtain ⟨name, slot'⟩ := row
          by_cases hname : regCur.handle = ""
          · simp [hcurrent, hname]
          · simp only [hcurrent, hname, isAfter, String.isEmpty_iff, if_false, if_true,
              Option.bind_some, Option.some.injEq, Prod.mk.injEq, exists_eq_left']
            constructor
            · rintro ⟨rfl, rfl⟩
              exact ⟨rfl, rfl, hname⟩
            · rintro ⟨rfl, rfl, -⟩
              exact ⟨rfl, rfl⟩

/-- **The rows are the named handles of the window.** -/
theorem mem_namedRows {row : String × StoredHandleSlot} :
    row ∈ state.namedRows registry window ↔ state.Named registry row ∧
      window.1 ≤ row.2.expiration ∧ row.2.expiration ≤ window.2 := by
  unfold ListenerApiState.namedRows ListenerApiState.Named
  rw [List.mem_filterMap]
  constructor
  · rintro ⟨slot, hslot, hrow⟩
    obtain ⟨record, hrecord, hwindow⟩ := List.mem_filterMap.1 hslot
    obtain ⟨hregistry, hcurrent, hmin, hmax⟩ := windowSlot_eq_some.1 hwindow
    obtain ⟨rfl, hnamed⟩ := namedRow_eq_some.1 hrow
    refine ⟨⟨⟨record.handleHash, ?_⟩, hnamed⟩, hmin, hmax⟩
    rw [← hregistry]
    unfold RecordStore.current
    rw [MemoryHandleSlotStore.mem_values.1 hrecord]
    exact hcurrent
  · rintro ⟨⟨⟨hash, hcurrent⟩, hnamed⟩, hmin, hmax⟩
    refine ⟨row.2, ?_, namedRow_eq_some.2 ⟨rfl, hnamed⟩⟩
    obtain ⟨record, hrecord, hslot⟩ := Option.bind_eq_some_iff.1 hcurrent
    have hkeyed := state.handleSlots.keyed _ record hrecord
    refine List.mem_filterMap.2 ⟨record, ?_, windowSlot_eq_some.2
      ⟨congrArg Prod.fst hkeyed, hslot, hmin, hmax⟩⟩
    rw [MemoryHandleSlotStore.mem_values, hkeyed]
    exact hrecord

end

/-! ## What is returned -/

/-- A request that is served from the rows of a registry. -/
def ListenerApiState.Serves (state : ListenerApiState) (checkedAt : ℕ) (launcherId : Option String)
    (registry : Bytes) : Prop :=
  selectRegistry state launcherId = .ok registry ∧ state.freshness.isFresh checkedAt = true

/-- The rows that a request reads. -/
def ListenerApiState.fetched (state : ListenerApiState) (query : ExpiringQuery) (registry : Bytes)
    (window : ℕ × ℕ) : List (String × StoredHandleSlot) :=
  fetch rowKey (state.namedRows registry window) ((query.cursor.bind decodeCursor).map toLex)
    (pageLimit query + 1)

/-- The time for which the auctions are priced. -/
def ListenerApiState.projected (state : ListenerApiState) : ℕ :=
  projectedPricingTimestamp state.freshness.confirmedTimestamp

/-- A row of a window behind the cursor. -/
def ListenerApiState.Behind (state : ListenerApiState) (query : ExpiringQuery) (registry : Bytes)
    (window : ℕ × ℕ) (row : String × StoredHandleSlot) : Prop :=
  (state.Named registry row ∧ window.1 ≤ row.2.expiration ∧ row.2.expiration ≤ window.2) ∧
    ∀ k ∈ query.cursor.bind decodeCursor, toLex k < rowKey row

section

variable {P : PricingSdk} {checkedAt now : ℕ} {state : ListenerApiState} {query : ExpiringQuery}
variable {registry : Bytes}

theorem pageLimit_eq_zero : pageLimit query = 0 ↔ query.limit = some 0 := by
  unfold pageLimit
  cases query.limit with
  | none => simp
  | some limit => simp

/-- **The index of the last row** is one, unless the page has no rows. -/
theorem nextCursor_isSome {Item : Type} {expiration : Item → ℕ} {handle : Item → String}
    {limit : ℕ} {rows : List Item} :
    (nextCursor expiration handle limit rows).isSome = true ↔ limit = 0 → rows = [] := by
  unfold nextCursor checkedSub
  by_cases hmore : limit < rows.length
  · rw [if_pos hmore]
    by_cases hlimit : limit = 0
    · subst hlimit
      simp [List.ne_nil_of_length_pos hmore]
    · rw [if_pos (by omega)]
      have hlast : rows[limit - 1]? = some rows[limit - 1] := List.getElem?_eq_getElem (by omega)
      simp [hlast, hlimit]
  · rw [if_neg hmore]
    simp only [Option.isSome_some, true_iff]
    intro hlimit
    exact List.eq_nil_of_length_eq_zero (by omega)

/-- **The row that is read for a page of no rows**: the first one behind the cursor. -/
theorem fetched_cases (hlimit : query.limit = some 0) (window : ℕ × ℕ) :
    (state.fetched query registry window = [] ∧ ∀ row, ¬ state.Behind query registry window row) ∨
      ∃ row, state.fetched query registry window = [row] ∧ state.Behind query registry window row ∧
        ∀ row', state.Behind query registry window row' → rowKey row ≤ rowKey row' := by
  have hbehind (row : String × StoredHandleSlot) : state.Behind query registry window row ↔
      row ∈ state.namedRows registry window ∧
        ∀ k ∈ (query.cursor.bind decodeCursor).map toLex, k < rowKey row := by
    unfold ListenerApiState.Behind
    rw [mem_namedRows]
    cases query.cursor.bind decodeCursor with
    | none => simp
    | some k => simp only [Option.map_some, Option.mem_some_iff, forall_eq']
  have hone : pageLimit query + 1 = 1 := by rw [pageLimit_eq_zero.2 hlimit]
  unfold ListenerApiState.fetched
  rw [hone]
  rcases fetch_one rowKey (state.namedRows registry window)
    ((query.cursor.bind decodeCursor).map toLex) with
    ⟨hnil, hnone⟩ | ⟨row, hrow, hfetch, hk, hfirst⟩
  · exact Or.inl ⟨hnil, fun row h => hnone row ((hbehind row).1 h).1 ((hbehind row).1 h).2⟩
  · exact Or.inr ⟨row, hfetch, (hbehind row).2 ⟨hrow, hk⟩,
      fun row' h => hfirst row' ((hbehind row').1 h).1 ((hbehind row').1 h).2⟩

/-- **A request is served or refused**, whatever is asked for. -/
theorem serves_or_refused (P : PricingSdk) (checkedAt now : ℕ) (state : ListenerApiState)
    (query : ExpiringQuery) : (∃ registry, state.Serves checkedAt query.launcherId registry) ∨
      (¬ ∃ registry, state.Serves checkedAt query.launcherId registry) ∧
        ∃ e, lookupExpiringActive P checkedAt now state query = some (.error e) ∧
          lookupExpiringSoon P checkedAt now state query = some (.error e) := by
  unfold ListenerApiState.Serves lookupExpiringActive lookupExpiringSoon requireFresh
  cases hselect : selectRegistry state query.launcherId with
  | error e => exact Or.inr ⟨by simp, e, rfl, rfl⟩
  | ok registry =>
      by_cases hfresh : state.freshness.isFresh checkedAt = true
      · exact Or.inl ⟨registry, rfl, hfresh⟩
      · refine Or.inr ⟨by simp [hfresh], .indexStale state.freshness.indexedPeakHeight
          state.freshness.upstreamPeakHeight, ?_⟩
        simp [hfresh]

/-- What a request for the handles that expire soon returns. -/
theorem lookupExpiringSoon_eq (h : state.Serves checkedAt query.launcherId registry) :
    lookupExpiringSoon P checkedAt now state query =
      let rows := (state.fetched query registry (soonExpirationWindow now)).map
        (soonItem P ((state.registryPricing registry).getD .default).basePrice)
      (nextCursor ExpiringSoonItem.expiration ExpiringSoonItem.handle (pageLimit query) rows).map
        fun next => .ok ⟨rows.take (pageLimit query), next, state.freshness.indexedPeakHeight,
          state.freshness.confirmedTimestamp⟩ := by
  unfold lookupExpiringSoon requireFresh ListenerApiState.fetched
  rw [h.1, if_pos h.2]
  simp only [listNamedInExpirationWindow_eq (soonExpirationWindow now)]
  exact (Option.map_eq_bind ..).symm

/-- **When a request for the handles that expire soon returns.** -/
theorem soon_returns_iff :
    (lookupExpiringSoon P checkedAt now state query).isSome = true ↔
      ∀ registry, state.Serves checkedAt query.launcherId registry → query.limit = some 0 →
        ∀ row, ¬ state.Behind query registry (soonExpirationWindow now) row := by
  rcases serves_or_refused P checkedAt now state query with
    ⟨registry, hserves⟩ | ⟨hnot, e, -, herror⟩
  · rw [lookupExpiringSoon_eq hserves]
    dsimp only
    rw [Option.isSome_map, nextCursor_isSome, pageLimit_eq_zero, List.map_eq_nil_iff]
    constructor
    · intro hrows registry' hserves' hlimit row hbehind
      obtain rfl : registry = registry' := Except.ok.inj (hserves.1.symm.trans hserves'.1)
      rcases fetched_cases hlimit (soonExpirationWindow now) with ⟨-, hnone⟩ | ⟨first, hfetch, -⟩
      · exact hnone row hbehind
      · rw [hrows hlimit] at hfetch
        cases hfetch
    · intro hall hlimit
      rcases fetched_cases hlimit (soonExpirationWindow now) with ⟨hnil, -⟩ | ⟨first, -, hfirst, -⟩
      · exact hnil
      · exact absurd hfirst (hall registry hserves hlimit first)
  · rw [herror]
    exact ⟨fun _ registry hserves => absurd ⟨registry, hserves⟩ hnot, fun _ => rfl⟩

/-- The premium of a row. -/
def premium (P : PricingSdk) (projected : ℕ) (row : String × StoredHandleSlot) : ℕ :=
  (auctionPremium P.premiumBitsList row.2.expiration projected).getD 0

variable (hle : ∀ bit ∈ P.premiumBitsList, bit ≤ premiumPrecision)
variable (hlength : P.premiumBitsList.length < 64)
include hle hlength

/-- **Premiums do not overflow**. -/
theorem auctionPremium_eq_premium (projected : ℕ) (row : String × StoredHandleSlot) :
    auctionPremium P.premiumBitsList row.2.expiration projected
      = some (premium P projected row) := by
  unfold premium
  by_cases h : projected < row.2.expiration
  · unfold auctionPremium
    rw [if_pos h]
    rfl
  · rw [auctionPremium_eq hle hlength (not_lt.1 h)]
    rfl

theorem mapM_activeItem (basePrice projected : ℕ) (rows : List (String × StoredHandleSlot)) :
    (rows.mapM fun row => do
        let premium ← auctionPremium P.premiumBitsList row.2.expiration projected
        return activeItem P basePrice projected premium row)
      = some (rows.map fun row =>
          activeItem P basePrice projected (premium P projected row) row) := by
  simp only [auctionPremium_eq_premium hle hlength]
  exact List.mapM_pure ..

/-- What a request for the active auctions returns. -/
theorem lookupExpiringActive_eq (h : state.Serves checkedAt query.launcherId registry) :
    lookupExpiringActive P checkedAt now state query =
      let rows := ((state.fetched query registry (activeExpirationWindow now state.projected)).map
        fun row => activeItem P ((state.registryPricing registry).getD .default).basePrice
          state.projected (premium P state.projected row) row).filter
            fun item => item.currentPremium ≠ 0
      (nextCursor ExpiringActiveItem.expiration ExpiringActiveItem.handle (pageLimit query)
        rows).map fun next => .ok ⟨rows.take (pageLimit query), next,
          state.freshness.indexedPeakHeight, state.freshness.confirmedTimestamp⟩ := by
  unfold lookupExpiringActive requireFresh ListenerApiState.fetched
  rw [h.1, if_pos h.2]
  simp only [listNamedInExpirationWindow_eq
    (activeExpirationWindow now (projectedPricingTimestamp _)), mapM_activeItem hle hlength]
  exact (Option.map_eq_bind ..).symm

/-- **When a request for the active auctions returns.** -/
theorem active_returns_iff :
    (lookupExpiringActive P checkedAt now state query).isSome = true ↔
      ∀ registry, state.Serves checkedAt query.launcherId registry → query.limit = some 0 → ∀ row,
        state.Behind query registry (activeExpirationWindow now state.projected) row →
        (∀ row', state.Behind query registry (activeExpirationWindow now state.projected) row' →
          row.2.expiration ≤ row'.2.expiration) →
        auctionPremium P.premiumBitsList row.2.expiration state.projected = some 0 := by
  rcases serves_or_refused P checkedAt now state query with
    ⟨registry, hserves⟩ | ⟨hnot, e, herror, -⟩
  · rw [lookupExpiringActive_eq hle hlength hserves]
    dsimp only
    rw [Option.isSome_map, nextCursor_isSome, pageLimit_eq_zero]
    constructor
    · intro hrows registry' hserves' hlimit row hbehind hleast
      obtain rfl : registry = registry' := Except.ok.inj (hserves.1.symm.trans hserves'.1)
      rcases fetched_cases hlimit (activeExpirationWindow now state.projected) with
        ⟨-, hnone⟩ | ⟨first, hfetch, hfirst, hmin⟩
      · exact absurd hbehind (hnone row)
      · have hsame : row.2.expiration = first.2.expiration :=
          le_antisymm (hleast first hfirst) (expiration_le_of_rowKey_le (hmin row hbehind))
        have hzero := hrows hlimit
        rw [hfetch, List.map_singleton, List.filter_eq_nil_iff] at hzero
        have hpremium : premium P state.projected first = 0 :=
          not_not.1 fun h => hzero _ (List.mem_singleton_self _) (decide_eq_true h)
        rw [hsame, auctionPremium_eq_premium hle hlength, hpremium]
    · intro hall hlimit
      rcases fetched_cases hlimit (activeExpirationWindow now state.projected) with
        ⟨hnil, -⟩ | ⟨first, hfetch, hfirst, hmin⟩
      · rw [hnil]
        rfl
      · have hzero := hall registry hserves hlimit first hfirst
          fun row' hrow' => expiration_le_of_rowKey_le (hmin row' hrow')
        rw [auctionPremium_eq_premium hle hlength] at hzero
        rw [hfetch, List.map_singleton, List.filter_eq_nil_iff]
        intro item hitem
        rw [List.mem_singleton.1 hitem, decide_eq_true_eq]
        exact not_not_intro (Option.some.inj hzero)
  · rw [herror]
    exact ⟨fun _ registry hserves => absurd ⟨registry, hserves⟩ hnot, fun _ => rfl⟩

end

/-- A directory request returns an answer or an error, unless it is served a page of no rows and
there is a row for it behind its cursor: for the active auctions, one that expired first and
has a premium. -/
theorem lookups_return_iff (P : PricingSdk)
    (hle : ∀ bit ∈ P.premiumBitsList, bit ≤ premiumPrecision)
    (hlength : P.premiumBitsList.length < 64) (checkedAt now : ℕ) (state : ListenerApiState)
    (query : ExpiringQuery) :
    ((lookupExpiringActive P checkedAt now state query).isSome = true ↔
      ∀ registry, state.Serves checkedAt query.launcherId registry → query.limit = some 0 → ∀ row,
        state.Behind query registry (activeExpirationWindow now state.projected) row →
        (∀ row', state.Behind query registry (activeExpirationWindow now state.projected) row' →
          row.2.expiration ≤ row'.2.expiration) →
        auctionPremium P.premiumBitsList row.2.expiration state.projected = some 0) ∧
    ((lookupExpiringSoon P checkedAt now state query).isSome = true ↔
      ∀ registry, state.Serves checkedAt query.launcherId registry → query.limit = some 0 →
        ∀ row, ¬ state.Behind query registry (soonExpirationWindow now) row) :=
  ⟨active_returns_iff hle hlength, soon_returns_iff⟩

/-! ## A directory -/

namespace DirectoryExample

/-- The prices of the SDK, a constant in place of the price of a handle. -/
def sdk : PricingSdk := ⟨PremiumExample.premiumBitsList, fun basePrice _ _ => basePrice⟩

/-- A registry. -/
def registry : Bytes := List.replicate 32 1

/-- The slot of a handle. -/
def slot (hash : Byte) (expiration : ℕ) : StoredHandleSlot where
  registryLauncherId := registry
  handleHash := List.replicate 32 hash
  counter := 1
  neighborsLeft := Bytes32.default
  neighborsRight := Bytes32.default
  expiration := expiration
  ownerLauncherId := Bytes32.default
  resolvedLauncherId := Bytes32.default
  parentCoinId := Bytes32.default
  parentParentId := Bytes32.default
  parentInnerPuzzleHash := Bytes32.default
  confirmationHeight := 90

/-- The registration of a handle. -/
def registration (name : String) (hash : Byte) : StoredRegistration where
  registryLauncherId := registry
  handle := name
  handleHash := List.replicate 32 hash
  registrationSecret := Bytes32.default
  actionKind := .register
  protocolFee := 0
  confirmationHeight := 90

/-- The handles of the registry: their names, hashes and expirations. -/
abbrev Entries := List (String × Byte × ℕ)

/-- The slots of the handles. -/
def slots (entries : Entries) : MemoryHandleSlotStore :=
  entries.foldr (fun e store => store.upsert
    ⟨⟨some (slot e.2.1 e.2.2), []⟩, registry, List.replicate 32 e.2.1⟩) .new

/-- The registrations of the handles. -/
def registrations (entries : Entries) : RecordStore StoredRegistration :=
  entries.foldr (fun e store => Function.update store (registry, List.replicate 32 e.2.1)
    (some ⟨⟨some (registration e.1 e.2.1), []⟩, registry, List.replicate 32 e.2.1⟩)) .empty

/-- The state of the listener, at some time. -/
def state (entries : Entries) (now : ℕ) : ListenerApiState where
  handleSlots := slots entries
  registrations := registrations entries
  freshness := ⟨100, 100, now, now, false, false⟩
  registryPricing _ := none
  registryLauncherIds := [registry]

/-- A handle that expired a day ago, and one that expires in a day. -/
def entries : Entries := [("alice", 2, 9913600), ("bob", 3, 10086400)]

/-- A request for a page of no rows. -/
def noRows : ExpiringQuery := ⟨none, some 0, none⟩

theorem serves (entries : Entries) (now : ℕ) : (state entries now).Serves now none registry := by
  refine ⟨rfl, ?_⟩
  unfold FreshnessState.isFresh
  simp [state]

end DirectoryExample

open DirectoryExample in
/-- A page of one row. -/
theorem lookups_return_one :
    (∀ bit ∈ sdk.premiumBitsList, bit ≤ premiumPrecision) ∧ sdk.premiumBitsList.length < 64 ∧
      (lookupExpiringActive sdk 10000000 10000000 (state entries 10000000)
        ⟨none, some 1, none⟩).isSome = true ∧
      (lookupExpiringSoon sdk 10000000 10000000 (state entries 10000000)
        ⟨none, some 1, none⟩).isSome = true := by
  have hle : ∀ bit ∈ sdk.premiumBitsList, bit ≤ premiumPrecision := PremiumExample.le_precision
  have hlength : sdk.premiumBitsList.length < 64 := by decide
  have h := lookups_return_iff sdk hle hlength 10000000 10000000 (state entries 10000000)
    ⟨none, some 1, none⟩
  exact ⟨hle, hlength, h.1.2 fun _ _ hlimit => absurd hlimit (by decide),
    h.2.2 fun _ _ hlimit => absurd hlimit (by decide)⟩

open DirectoryExample in
/-- A page of no rows panics for both views. -/
theorem lookups_panic :
    lookupExpiringActive sdk 10000000 10000000 (state entries 10000000) noRows = none ∧
      lookupExpiringSoon sdk 10000000 10000000 (state entries 10000000) noRows = none := by
  have hle : ∀ bit ∈ sdk.premiumBitsList, bit ≤ premiumPrecision := PremiumExample.le_precision
  have hlength : sdk.premiumBitsList.length < 64 := by decide
  have hactive : (state entries 10000000).namedRows registry
      (activeExpirationWindow 10000000 (state entries 10000000).projected)
        = [("alice", slot 2 9913600)] := by
    decide +kernel
  have hsoon : ("bob", slot 3 10086400) ∈ (state entries 10000000).namedRows registry
      (soonExpirationWindow 10000000) := by
    decide +kernel
  constructor
  · rw [← Option.not_isSome_iff_eq_none, active_returns_iff hle hlength]
    intro h
    have hzero := h registry (serves ..) rfl ("alice", slot 2 9913600)
      ⟨mem_namedRows.1 (by rw [hactive]; exact List.mem_singleton_self _), by simp [noRows]⟩
      fun row' hrow' => by
        have hmem := mem_namedRows.2 hrow'.1
        rw [hactive] at hmem
        rw [List.mem_singleton.1 hmem]
    revert hzero
    decide +kernel
  · rw [← Option.not_isSome_iff_eq_none, soon_returns_iff]
    intro h
    exact h registry (serves ..) rfl ("bob", slot 3 10086400)
      ⟨mem_namedRows.1 hsoon, by simp [noRows]⟩

end SlotMachine.Listener
