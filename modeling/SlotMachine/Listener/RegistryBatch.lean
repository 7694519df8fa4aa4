import SlotMachine.Listener.SingletonStore
import SlotMachine.Sync.Database

/-!
# The records of the registry coins

At every peak the listener asks the node for the coins of its registries.  It checks that
it got a record of each, and syncs the registries whose coins are spent.

* `processSpentRegistryRecords` — the check and the loop (`xchandles/listen.rs`).
* `checkRecords_perm`, `checkRecords_eq_ok` — what the check says does not depend on the
  order, and what passes it.
* `processRegistries_not_panicked`, `processRegistries_panicked` — a coin that two
  registries have has no second record.
* `Validated`, `batch_validated_iff` — **when the check is one of a bijection**.
-/

namespace SlotMachine.Listener

open Sync (CliError)

/-! ## Hexadecimal digits -/

/-- A hexadecimal digit. -/
def hexDigit (d : ℕ) : Char := Char.ofNat (if d < 10 then 48 + d else 87 + d)

/-- `hex::encode`. -/
def hexEncode (bytes : Bytes) : String :=
  String.ofList (bytes.flatMap fun b => [hexDigit (b.val / 16), hexDigit (b.val % 16)])

theorem hexDigit_inj {a b : ℕ} (ha : a < 16) (hb : b < 16) (h : hexDigit a = hexDigit b) :
    a = b := by
  have hall : ∀ i j : Fin 16, hexDigit i = hexDigit j → i = j := by decide
  exact congrArg Fin.val (hall ⟨a, ha⟩ ⟨b, hb⟩ h)

/-- **The digits tell the bytes.** -/
theorem hexEncode_injective : Function.Injective hexEncode := by
  intro x y h
  unfold hexEncode at h
  have hdigits := String.ofList_injective h
  clear h
  induction x generalizing y with
  | nil =>
      cases y with
      | nil => rfl
      | cons b y => cases hdigits
  | cons a x ih =>
      cases y with
      | nil => cases hdigits
      | cons b y =>
          simp only [List.flatMap_cons, List.cons_append, List.nil_append, List.cons.injEq]
            at hdigits
          obtain ⟨hhigh, hlow, hrest⟩ := hdigits
          have hquot := hexDigit_inj (by omega) (by omega) hhigh
          have hrem := hexDigit_inj (by omega) (by omega) hlow
          rw [ih hrest, Fin.ext (a := a) (b := b) (by omega)]

/-! ## The records -/

/-- `CoinRecord`. -/
structure CoinRecord where
  coin : Coin
  spent : Bool
  deriving DecidableEq

/-- `XchandlesRegistry`. -/
structure XchandlesRegistry where
  coin : Coin
  launcherId : Bytes
  deriving DecidableEq

/-- The records by coin id, with their number. -/
structure RecordMap where
  get : Bytes → Option CoinRecord
  len : ℕ

namespace RecordMap

def empty : RecordMap := ⟨fun _ => none, 0⟩

/-- `insert`, of a key that is not there. -/
def insertNew (map : RecordMap) (record : CoinRecord) : RecordMap :=
  ⟨Function.update map.get record.coin.coinId (some record), map.len + 1⟩

/-- `remove`, of a key that is there. -/
def erase (map : RecordMap) (id : Bytes) : RecordMap :=
  ⟨Function.update map.get id none, map.len - 1⟩

end RecordMap

/-- The records are collected; of two for one coin the second is an error. -/
def collectRecords : RecordMap → List CoinRecord → Except CliError RecordMap
  | map, [] => .ok map
  | map, record :: records =>
      if (map.get record.coin.coinId).isSome then
        .error (.custom ("duplicate coin record for registry coin " ++ hexEncode record.coin.coinId))
      else collectRecords (map.insertNew record) records

/-- Every registry has a record. -/
def checkPresent (map : RecordMap) : List XchandlesRegistry → Except CliError Unit
  | [] => .ok ()
  | registry :: registries =>
      if (map.get registry.coin.coinId).isSome then checkPresent map registries
      else .error (.custom ("missing coin record for registry coin " ++ hexEncode registry.coin.coinId))

/-- The checks before anything is synced. -/
def checkRecords (registries : List XchandlesRegistry) (coinRecords : List CoinRecord) :
    Except CliError RecordMap :=
  match collectRecords .empty coinRecords with
  | .error e => .error e
  | .ok map =>
      match checkPresent map registries with
      | .error e => .error e
      | .ok () =>
          if map.len ≠ registries.length then
            .error (.custom "coin record response contained an unexpected registry coin")
          else .ok map

/-! ## The loop -/

/-- `RegistrySyncBatch`. -/
structure RegistrySyncBatch (T : Type) where
  registry : XchandlesRegistry
  transitions : List T

/-- What is done to the database and the indexer, the world `W`. -/
structure RegistryChainSource (W T : Type) where
  syncRegistry : W → Bytes → W × Except CliError (RegistrySyncBatch T)
  applyTransition : W → Bytes → T → W

/-- How the loop ends. -/
inductive BatchResult where
  | done
  | failed (error : CliError)
  /-- `expect`, of a record that is not there. -/
  | panicked

section

variable {W T : Type} (source : RegistryChainSource W T)

/-- The loop of `process_spent_registry_records`. -/
def processRegistries : W → RecordMap → List XchandlesRegistry →
    W × List XchandlesRegistry × BatchResult
  | w, _, [] => (w, [], .done)
  | w, map, registry :: registries =>
      match map.get registry.coin.coinId with
      | none => (w, registry :: registries, .panicked)
      | some coinRecord =>
          if coinRecord.spent = false then
            let (w', registries', result) := processRegistries w (map.erase registry.coin.coinId)
              registries
            (w', registry :: registries', result)
          else
            match source.syncRegistry w registry.launcherId with
            | (w, .error e) => (w, registry :: registries, .failed e)
            | (w, .ok synced) =>
                let w := synced.transitions.foldl
                  (fun w t => source.applyTransition w registry.launcherId t) w
                let (w', registries', result) := processRegistries w (map.erase registry.coin.coinId)
                  registries
                (w', synced.registry :: registries', result)

/-- `process_spent_registry_records`. -/
def processSpentRegistryRecords (w : W) (registries : List XchandlesRegistry)
    (coinRecords : List CoinRecord) : W × List XchandlesRegistry × BatchResult :=
  match checkRecords registries coinRecords with
  | .error e => (w, registries, .failed e)
  | .ok map => processRegistries source w map registries

end

/-! ## What the checks say -/

/-- The coin ids of some records. -/
def recordIds (coinRecords : List CoinRecord) : List Bytes :=
  coinRecords.map fun record => record.coin.coinId

/-- The coin ids of some registries. -/
def registryIds (registries : List XchandlesRegistry) : List Bytes :=
  registries.map fun registry => registry.coin.coinId

/-- The records by coin id, the first one of each. -/
def RecordMap.of (coinRecords : List CoinRecord) : RecordMap :=
  ⟨fun id => coinRecords.find? fun record => decide (record.coin.coinId = id), coinRecords.length⟩

section

variable {map : RecordMap} {coinRecords coinRecords' : List CoinRecord}
variable {registries : List XchandlesRegistry}

theorem coinId_mem_recordIds {record : CoinRecord} (h : record ∈ coinRecords) :
    record.coin.coinId ∈ recordIds coinRecords := List.mem_map_of_mem h

/-- **The records are collected if no two are of one coin.** -/
theorem collectRecords_ok (hnodup : (recordIds coinRecords).Nodup)
    (hnew : ∀ record ∈ coinRecords, map.get record.coin.coinId = none) :
    collectRecords map coinRecords = .ok
      ⟨fun id => ((RecordMap.of coinRecords).get id).or (map.get id),
        map.len + coinRecords.length⟩ := by
  induction coinRecords generalizing map with
  | nil => rfl
  | cons record coinRecords ih =>
      obtain ⟨hnot, hnodup⟩ := List.nodup_cons.1 hnodup
      have hne : ∀ r ∈ coinRecords, r.coin.coinId ≠ record.coin.coinId := by
        intro r hr heq
        have hmem := coinId_mem_recordIds hr
        rw [heq] at hmem
        exact hnot hmem
      have hrecord := hnew record List.mem_cons_self
      have hrest : ∀ r ∈ coinRecords, (map.insertNew record).get r.coin.coinId = none := by
        intro r hr
        exact (Function.update_of_ne (hne r hr) ..).trans (hnew r (List.mem_cons_of_mem _ hr))
      rw [collectRecords, hrecord, if_neg (by simp), ih hnodup hrest]
      congr 2
      · funext id
        unfold RecordMap.of RecordMap.insertNew
        dsimp only
        by_cases hid : record.coin.coinId = id
        · subst hid
          have hnone : coinRecords.find?
              (fun r => decide (r.coin.coinId = record.coin.coinId)) = none := by
            rw [List.find?_eq_none]
            intro r hr
            simpa using hne r hr
          rw [hnone, Function.update_self, List.find?_cons_of_pos (by simp)]
          rfl
        · rw [List.find?_cons_of_neg (by simp [hid]), Function.update_of_ne (Ne.symm hid)]
      · show map.len + 1 + coinRecords.length = map.len + (coinRecords.length + 1)
        omega

variable (map coinRecords) in
/-- Otherwise one that is there twice is reported. -/
theorem collectRecords_error
    (h : ¬ ((recordIds coinRecords).Nodup ∧
      ∀ record ∈ coinRecords, map.get record.coin.coinId = none)) :
    ∃ id, collectRecords map coinRecords = .error
        (.custom ("duplicate coin record for registry coin " ++ hexEncode id)) ∧
      (2 ≤ (recordIds coinRecords).count id ∨
        ((map.get id).isSome = true ∧ id ∈ recordIds coinRecords)) := by
  induction coinRecords generalizing map with
  | nil => exact absurd ⟨List.nodup_nil, nofun⟩ h
  | cons record coinRecords ih =>
      unfold collectRecords
      by_cases hrecord : (map.get record.coin.coinId).isSome = true
      · rw [if_pos hrecord]
        exact ⟨_, rfl, Or.inr ⟨hrecord, List.mem_cons_self⟩⟩
      · rw [if_neg hrecord]
        have hnone : map.get record.coin.coinId = none := by simpa using hrecord
        obtain ⟨id, herror, hid⟩ := ih (map.insertNew record) fun ⟨hnodup, hnew⟩ => by
          have hne : ∀ r ∈ coinRecords, r.coin.coinId ≠ record.coin.coinId := by
            intro r hr heq
            have := hnew r hr
            rw [heq] at this
            cases (Function.update_self ..).symm.trans this
          refine h ⟨List.nodup_cons.2 ⟨fun hmem => ?_, hnodup⟩, fun r hr => ?_⟩
          · obtain ⟨r, hr, heq⟩ := List.mem_map.1 hmem
            exact hne r hr heq
          · obtain rfl | hr := List.mem_cons.1 hr
            · exact hnone
            · exact (Function.update_of_ne (hne r hr) ..).symm.trans (hnew r hr)
        refine ⟨id, herror, ?_⟩
        show 2 ≤ (record.coin.coinId :: recordIds coinRecords).count id ∨ _
        by_cases heq : record.coin.coinId = id
        · subst heq
          left
          have hmem : record.coin.coinId ∈ recordIds coinRecords := by
            rcases hid with hcount | ⟨-, hmem⟩
            · exact List.count_pos_iff.1 (by omega)
            · exact hmem
          rw [List.count_cons_self]
          have := List.count_pos_iff.2 hmem
          omega
        · rcases hid with hcount | ⟨hsome, hmem⟩
          · left
            rwa [List.count_cons_of_ne heq]
          · right
            refine ⟨?_, List.mem_cons_of_mem _ hmem⟩
            rw [← hsome]
            exact congrArg Option.isSome (Function.update_of_ne (Ne.symm heq) ..).symm

/-- A record of each coin, whatever their order. -/
theorem get_of_eq_some (hnodup : (recordIds coinRecords).Nodup) {id : Bytes} {record : CoinRecord} :
    (RecordMap.of coinRecords).get id = some record ↔
      record ∈ coinRecords ∧ record.coin.coinId = id := by
  unfold RecordMap.of
  constructor
  · intro h
    exact ⟨List.mem_of_find?_eq_some h, by simpa using List.find?_some h⟩
  · rintro ⟨hmem, rfl⟩
    cases hfind : coinRecords.find? (fun r => decide (r.coin.coinId = record.coin.coinId)) with
    | none =>
        have := List.find?_eq_none.1 hfind record hmem
        simp at this
    | some r =>
        have heq : r.coin.coinId = record.coin.coinId := by simpa using List.find?_some hfind
        have hr := List.inj_on_of_nodup_map hnodup (List.mem_of_find?_eq_some hfind) hmem heq
        dsimp only
        rw [hfind, hr]

theorem RecordMap.of_perm (hnodup : (recordIds coinRecords).Nodup)
    (hperm : coinRecords'.Perm coinRecords) :
    RecordMap.of coinRecords' = RecordMap.of coinRecords := by
  have hnodup' : (recordIds coinRecords').Nodup := (hperm.map _).nodup_iff.2 hnodup
  have hget : (RecordMap.of coinRecords').get = (RecordMap.of coinRecords).get := by
    funext id
    ext record
    rw [get_of_eq_some hnodup', get_of_eq_some hnodup, hperm.mem_iff]
  unfold RecordMap.of at hget ⊢
  rw [RecordMap.mk.injEq]
  exact ⟨hget, hperm.length_eq⟩

theorem RecordMap.isSome_get_of {id : Bytes} :
    ((RecordMap.of coinRecords).get id).isSome = true ↔ id ∈ recordIds coinRecords := by
  unfold RecordMap.of recordIds
  rw [List.find?_isSome, List.mem_map]
  simp

theorem checkPresent_ok
    (h : ∀ registry ∈ registries, (map.get registry.coin.coinId).isSome = true) :
    checkPresent map registries = .ok () := by
  induction registries with
  | nil => rfl
  | cons registry registries ih =>
      rw [checkPresent, if_pos (h registry List.mem_cons_self)]
      exact ih fun r hr => h r (List.mem_cons_of_mem _ hr)

theorem checkPresent_error
    (h : ¬ ∀ registry ∈ registries, (map.get registry.coin.coinId).isSome = true) :
    ∃ e, checkPresent map registries = .error e := by
  induction registries with
  | nil => exact absurd nofun h
  | cons registry registries ih =>
      unfold checkPresent
      split
      · next hsome =>
          refine ih fun hall => h fun r hr => ?_
          obtain rfl | hr := List.mem_cons.1 hr
          · exact hsome
          · exact hall r hr
      · exact ⟨_, rfl⟩

/-- The records pass the checks: no two are of one coin, there is one of each registry's, and
there are as many of them as registries. -/
structure Accepted (registries : List XchandlesRegistry) (coinRecords : List CoinRecord) : Prop where
  nodup : (recordIds coinRecords).Nodup
  present : ∀ registry ∈ registries, registry.coin.coinId ∈ recordIds coinRecords
  length_eq : coinRecords.length = registries.length

theorem collectRecords_empty (hnodup : (recordIds coinRecords).Nodup) :
    collectRecords .empty coinRecords = .ok (RecordMap.of coinRecords) := by
  rw [collectRecords_ok hnodup fun _ _ => rfl]
  congr 2
  · funext id
    exact Option.or_none
  · exact Nat.zero_add _

/-- **What passes the checks.** -/
theorem checkRecords_ok (h : Accepted registries coinRecords) :
    checkRecords registries coinRecords = .ok (RecordMap.of coinRecords) := by
  unfold checkRecords
  rw [collectRecords_empty h.nodup]
  dsimp only
  rw [checkPresent_ok fun r hr => RecordMap.isSome_get_of.2 (h.present r hr)]
  exact if_neg (not_not.2 h.length_eq)

theorem checkRecords_of_error {e : CliError} (h : collectRecords .empty coinRecords = .error e) :
    checkRecords registries coinRecords = .error e := by
  unfold checkRecords
  rw [h]

variable (registries) in
/-- What is of one coin twice does not, and one such coin is reported. -/
theorem checkRecords_duplicate (h : ¬ (recordIds coinRecords).Nodup) :
    ∃ id, checkRecords registries coinRecords = .error
        (.custom ("duplicate coin record for registry coin " ++ hexEncode id)) ∧
      2 ≤ (recordIds coinRecords).count id := by
  obtain ⟨id, herror, hid⟩ := collectRecords_error .empty coinRecords
    fun hall => h hall.1
  refine ⟨id, ?_, hid.resolve_right fun hsome => Bool.false_ne_true hsome.1⟩
  exact checkRecords_of_error herror

/-- Nor does anything else. -/
theorem checkRecords_error (h : ¬ Accepted registries coinRecords) :
    ∃ e, checkRecords registries coinRecords = .error e := by
  by_cases hnodup : (recordIds coinRecords).Nodup
  · unfold checkRecords
    rw [collectRecords_empty hnodup]
    dsimp only
    by_cases hpresent : ∀ r ∈ registries,
        ((RecordMap.of coinRecords).get r.coin.coinId).isSome = true
    · rw [checkPresent_ok hpresent]
      exact ⟨_, if_pos fun hlength => h
        ⟨hnodup, fun r hr => RecordMap.isSome_get_of.1 (hpresent r hr), hlength⟩⟩
    · obtain ⟨e, he⟩ := checkPresent_error hpresent
      rw [he]
      exact ⟨e, rfl⟩
  · obtain ⟨id, herror, -⟩ := checkRecords_duplicate registries hnodup
    exact ⟨_, herror⟩

/-- No two coins have two records each. -/
def OneDuplicate (coinRecords : List CoinRecord) : Prop :=
  ∀ id id', 2 ≤ (recordIds coinRecords).count id → 2 ≤ (recordIds coinRecords).count id' → id = id'

/-- **The checks do not depend on the order** of the records, if one coin at most is of more
than one. -/
theorem checkRecords_perm (h : OneDuplicate coinRecords) (hperm : coinRecords'.Perm coinRecords) :
    checkRecords registries coinRecords' = checkRecords registries coinRecords := by
  have hids : (recordIds coinRecords').Perm (recordIds coinRecords) := hperm.map _
  by_cases hnodup : (recordIds coinRecords).Nodup
  · unfold checkRecords
    rw [collectRecords_empty hnodup, collectRecords_empty (hids.nodup_iff.2 hnodup),
      RecordMap.of_perm hnodup hperm]
  · obtain ⟨id, herror, hid⟩ := checkRecords_duplicate registries hnodup
    have hnodup' : ¬ (recordIds coinRecords').Nodup := fun hn => hnodup (hids.nodup_iff.1 hn)
    obtain ⟨id', herror', hid'⟩ := checkRecords_duplicate registries hnodup'
    rw [hids.count_eq] at hid'
    rw [herror, herror', h id id' hid hid']

theorem collectRecords_pair {a b : CoinRecord} (h : b.coin.coinId = a.coin.coinId)
    (rest : List CoinRecord) : collectRecords .empty (a :: b :: rest) = .error
      (.custom ("duplicate coin record for registry coin " ++ hexEncode b.coin.coinId)) := by
  have hsome : ((RecordMap.empty.insertNew a).get b.coin.coinId).isSome = true := by
    unfold RecordMap.insertNew
    dsimp only
    rw [h, Function.update_self]
    rfl
  have hnone : ¬ (RecordMap.empty.get a.coin.coinId).isSome = true := Bool.false_ne_true
  rw [collectRecords, if_neg hnone, collectRecords, if_pos hsome]

variable (registries) in
/-- A coin with two records can be the one that is reported. -/
theorem exists_perm_reported {id : Bytes} (h : 2 ≤ (recordIds coinRecords).count id) :
    ∃ reordered : List CoinRecord, reordered.Perm coinRecords ∧
      checkRecords registries reordered = .error
        (.custom ("duplicate coin record for registry coin " ++ hexEncode id)) := by
  refine ⟨_, List.filter_append_perm (fun r => decide (r.coin.coinId = id)) coinRecords, ?_⟩
  have hlength : 2 ≤ (coinRecords.filter fun r => decide (r.coin.coinId = id)).length := by
    rw [recordIds, List.count, List.countP_map] at h
    rw [← List.countP_eq_length_filter]
    refine h.trans_eq (List.countP_congr fun r _ => ?_)
    simp
  cases hfirst : coinRecords.filter fun r => decide (r.coin.coinId = id) with
  | nil => rw [hfirst] at hlength; simp at hlength
  | cons a rest =>
      cases rest with
      | nil => rw [hfirst] at hlength; simp at hlength
      | cons b rest =>
          have hall : ∀ r ∈ a :: b :: rest, r.coin.coinId = id := by
            intro r hr
            rw [← hfirst] at hr
            simpa using (List.mem_filter.1 hr).2
          have ha := hall a List.mem_cons_self
          have hb := hall b (List.mem_cons_of_mem _ List.mem_cons_self)
          rw [List.cons_append, List.cons_append, ← hb]
          exact checkRecords_of_error (collectRecords_pair (hb.trans ha.symm) _)

end

/-! ## Where the loop panics -/

section

variable {W T : Type} {map : RecordMap} {registries : List XchandlesRegistry}

@[simp] theorem RecordMap.get_erase_self (id : Bytes) : (map.erase id).get id = none := by
  unfold RecordMap.erase
  exact Function.update_self ..

theorem RecordMap.get_erase_of_ne {id id' : Bytes} (h : id' ≠ id) :
    (map.erase id).get id' = map.get id' := by
  unfold RecordMap.erase
  exact Function.update_of_ne h ..

/-- **Registries with coins of their own find their records.** -/
theorem processRegistries_not_panicked (source : RegistryChainSource W T)
    (hnodup : (registryIds registries).Nodup)
    (hpresent : ∀ registry ∈ registries, (map.get registry.coin.coinId).isSome = true) (w : W) :
    (processRegistries source w map registries).2.2 ≠ .panicked := by
  induction registries generalizing map w with
  | nil => exact nofun
  | cons registry registries ih =>
      obtain ⟨hnot, hnodup⟩ := List.nodup_cons.1 hnodup
      have hrest : ∀ r ∈ registries, ((map.erase registry.coin.coinId).get r.coin.coinId).isSome
          = true := by
        intro r hr
        have hne : r.coin.coinId ≠ registry.coin.coinId := by
          intro heq
          have hmem : r.coin.coinId ∈ registryIds registries := List.mem_map_of_mem hr
          rw [heq] at hmem
          exact hnot hmem
        rw [RecordMap.get_erase_of_ne hne]
        exact hpresent r (List.mem_cons_of_mem _ hr)
      obtain ⟨record, hrecord⟩ := Option.isSome_iff_exists.1 (hpresent registry List.mem_cons_self)
      unfold processRegistries
      rw [hrecord]
      dsimp only
      split
      · exact ih hnodup hrest w
      · cases source.syncRegistry w registry.launcherId with
        | mk w' result =>
            cases result with
            | error e => exact nofun
            | ok synced => exact ih hnodup hrest _

/-- A chain on which nothing happens: a sync returns the registry it is told. -/
def idle (registry : XchandlesRegistry) : RegistryChainSource Unit Empty where
  syncRegistry w _ := (w, .ok ⟨registry, []⟩)
  applyTransition w _ _ := w

theorem processRegistries_idle_cons (latest registry : XchandlesRegistry) :
    (processRegistries (idle latest) () map (registry :: registries)).2.2
      = if (map.get registry.coin.coinId).isSome then
          (processRegistries (idle latest) () (map.erase registry.coin.coinId) registries).2.2
        else .panicked := by
  rw [processRegistries]
  cases map.get registry.coin.coinId with
  | none => rfl
  | some record =>
      dsimp only
      split <;> rfl

/-- A coin without a record is a panic. -/
theorem processRegistries_missing (latest : XchandlesRegistry)
    (h : ∃ registry ∈ registries, map.get registry.coin.coinId = none) :
    (processRegistries (idle latest) () map registries).2.2 = .panicked := by
  induction registries generalizing map with
  | nil =>
      obtain ⟨r, hr, -⟩ := h
      cases hr
  | cons registry registries ih =>
      rw [processRegistries_idle_cons]
      split
      · next hsome =>
          refine ih ?_
          obtain ⟨r, hr, hnone⟩ := h
          obtain rfl | hr := List.mem_cons.1 hr
          · rw [hnone] at hsome
            cases hsome
          · refine ⟨r, hr, ?_⟩
            by_cases heq : r.coin.coinId = registry.coin.coinId
            · rw [heq]
              exact RecordMap.get_erase_self _
            · rw [RecordMap.get_erase_of_ne heq, hnone]
      · rfl

/-- **A coin that two registries have is one**: the first of them takes its record. -/
theorem processRegistries_panicked (latest : XchandlesRegistry)
    (h : ¬ (registryIds registries).Nodup) :
    (processRegistries (idle latest) () map registries).2.2 = .panicked := by
  induction registries generalizing map with
  | nil => exact absurd List.nodup_nil h
  | cons registry registries ih =>
      rw [processRegistries_idle_cons]
      split
      · by_cases hmem : registry.coin.coinId ∈ registryIds registries
        · obtain ⟨r, hr, heq⟩ := List.mem_map.1 hmem
          refine processRegistries_missing latest ⟨r, hr, ?_⟩
          rw [heq]
          exact RecordMap.get_erase_self _
        · exact ih fun hnodup => h (List.nodup_cons.2 ⟨hmem, hnodup⟩)
      · rfl

end

/-! ## The batch -/

section

variable {registries : List XchandlesRegistry} {coinRecords : List CoinRecord}

/-- The records are exactly one of each registry coin. -/
def OnePerCoin (registries : List XchandlesRegistry) (coinRecords : List CoinRecord) : Prop :=
  (recordIds coinRecords).Nodup ∧ ∀ id, id ∈ recordIds coinRecords ↔ id ∈ registryIds registries

/-- **The batch is validated**: the order of the records does not matter, what is not exactly
one of each coin is an error that changes nothing, and there is no panic. -/
structure Validated (registries : List XchandlesRegistry) (coinRecords : List CoinRecord) :
    Prop where
  perm : ∀ {W T : Type} (source : RegistryChainSource W T) (w : W) (reordered : List CoinRecord),
    reordered.Perm coinRecords → processSpentRegistryRecords source w registries reordered
      = processSpentRegistryRecords source w registries coinRecords
  rejects : ¬ OnePerCoin registries coinRecords → ∀ {W T : Type} (source : RegistryChainSource W T)
    (w : W), ∃ e, processSpentRegistryRecords source w registries coinRecords
      = (w, registries, .failed e)
  no_panic : ∀ {W T : Type} (source : RegistryChainSource W T) (w : W),
    (processSpentRegistryRecords source w registries coinRecords).2.2 ≠ .panicked

theorem processSpentRegistryRecords_error {W T : Type} {source : RegistryChainSource W T} {w : W}
    {e : CliError} (h : checkRecords registries coinRecords = .error e) :
    processSpentRegistryRecords source w registries coinRecords = (w, registries, .failed e) := by
  unfold processSpentRegistryRecords
  rw [h]

theorem processSpentRegistryRecords_ok {W T : Type} {source : RegistryChainSource W T} {w : W}
    (h : Accepted registries coinRecords) :
    processSpentRegistryRecords source w registries coinRecords
      = processRegistries source w (RecordMap.of coinRecords) registries := by
  unfold processSpentRegistryRecords
  rw [checkRecords_ok h]

/-- **As many records as registries with coins of their own** are exactly theirs. -/
theorem Accepted.onePerCoin (h : Accepted registries coinRecords)
    (hnodup : (registryIds registries).Nodup) : OnePerCoin registries coinRecords := by
  have hsubset : registryIds registries ⊆ recordIds coinRecords := by
    intro id hid
    obtain ⟨r, hr, rfl⟩ := List.mem_map.1 hid
    exact h.present r hr
  have hlength : (recordIds coinRecords).length ≤ (registryIds registries).length := by
    unfold recordIds registryIds
    rw [List.length_map, List.length_map, h.length_eq]
  have hperm := (List.subperm_of_subset hnodup hsubset).perm_of_length_le hlength
  exact ⟨h.nodup, fun id => hperm.mem_iff.symm⟩

/-- **When the batch is validated**: one coin at most has more than one record, and no two
registries have one coin unless the records are rejected. -/
theorem batch_validated_iff (registries : List XchandlesRegistry) (coinRecords : List CoinRecord) :
    Validated registries coinRecords ↔ OneDuplicate coinRecords ∧
      ((registryIds registries).Nodup ∨ ¬ Accepted registries coinRecords) := by
  constructor
  · intro h
    constructor
    · intro id id' hid hid'
      obtain ⟨reordered, hperm, herror⟩ := exists_perm_reported registries hid
      obtain ⟨reordered', hperm', herror'⟩ := exists_perm_reported registries hid'
      have heq := (h.perm (idle ⟨⟨[], [], 0⟩, []⟩) () reordered hperm).trans
        (h.perm (idle ⟨⟨[], [], 0⟩, []⟩) () reordered' hperm').symm
      rw [processSpentRegistryRecords_error herror, processSpentRegistryRecords_error herror']
        at heq
      simp only [Prod.mk.injEq, BatchResult.failed.injEq, CliError.custom.injEq, true_and,
        String.append_right_inj] at heq
      exact hexEncode_injective heq
    · by_contra hnot
      rw [not_or, not_not] at hnot
      refine h.no_panic (idle ⟨⟨[], [], 0⟩, []⟩) () ?_
      rw [processSpentRegistryRecords_ok hnot.2]
      exact processRegistries_panicked _ hnot.1
  · rintro ⟨hduplicate, hcase⟩
    refine ⟨fun source w reordered hperm => ?_, fun hnot W T source w => ?_, fun source w => ?_⟩
    · unfold processSpentRegistryRecords
      rw [checkRecords_perm hduplicate hperm]
    · have hrejected : ¬ Accepted registries coinRecords :=
        fun h => hcase.elim (fun hnodup => hnot (h.onePerCoin hnodup)) fun hn => hn h
      obtain ⟨e, he⟩ := checkRecords_error hrejected
      exact ⟨e, processSpentRegistryRecords_error he⟩
    · by_cases haccepted : Accepted registries coinRecords
      · rw [processSpentRegistryRecords_ok haccepted]
        refine processRegistries_not_panicked source (hcase.resolve_right fun hn => hn haccepted)
          (fun r hr => RecordMap.isSome_get_of.2 (haccepted.present r hr)) w
      · obtain ⟨e, he⟩ := checkRecords_error haccepted
        rw [processSpentRegistryRecords_error he]
        exact nofun

end

/-! ## One coin of two registries, as an example -/

namespace BatchExample

/-- A registry, and the record of its coin. -/
def registry (launcher : Byte) : XchandlesRegistry :=
  ⟨⟨List.replicate 32 launcher, List.replicate 32 2, 1⟩, List.replicate 32 launcher⟩

def record (launcher : Byte) : CoinRecord := ⟨(registry launcher).coin, true⟩

end BatchExample

open BatchExample in
/-- **A registry that is given twice**: with the record of its coin and one more, the checks
pass, and the loop panics. -/
theorem batch_validated_fails :
    ¬ OnePerCoin [registry 1, registry 1] [record 1, record 2] ∧
    (processSpentRegistryRecords (idle (registry 1)) () [registry 1, registry 1]
      [record 1, record 2]).2.2 = .panicked ∧
    ¬ Validated [registry 1, registry 1] [record 1, record 2] := by
  have hne : (registry 1).coin.coinId ≠ (registry 2).coin.coinId := by decide +kernel
  have haccepted : Accepted [registry 1, registry 1] [record 1, record 2] := by
    refine ⟨List.nodup_cons.2 ⟨fun hmem => hne (List.mem_singleton.1 hmem), List.nodup_singleton _⟩,
      fun r hr => ?_, rfl⟩
    obtain rfl : r = registry 1 := by simpa using hr
    exact List.mem_cons_self
  have hpanic : (processSpentRegistryRecords (idle (registry 1)) () [registry 1, registry 1]
      [record 1, record 2]).2.2 = .panicked := by
    rw [processSpentRegistryRecords_ok haccepted]
    exact processRegistries_panicked _ fun hnodup =>
      (List.nodup_cons.1 hnodup).1 (List.mem_singleton_self _)
  refine ⟨fun hone => ?_, hpanic, fun hvalidated => hvalidated.no_panic _ _ hpanic⟩
  have hmem := (hone.2 (registry 2).coin.coinId).1 (List.mem_cons_of_mem _ List.mem_cons_self)
  have heq : (registry 2).coin.coinId = (registry 1).coin.coinId := by
    simpa [registryIds] using hmem
  exact hne heq.symm

end SlotMachine.Listener
