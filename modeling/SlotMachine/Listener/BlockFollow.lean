import Mathlib.Data.List.TakeWhile
import SlotMachine.Listener.Following
import SlotMachine.Listener.Mutation

/-!
# What a block does to each launcher

The indexer goes through the launchers in an order of its own, and the first one that
fails ends the call.

* `onBlock_apply` — **what each launcher gets**: its step, if no launcher up to it fails.
* `followBlock` — a call of the listener for one block, which is counted whatever fails.
* `FollowedBy`, `AtEnd`, `CaughtUp` — the coins of a singleton in a block, and its last one.
* `block_followed_iff` — **when the last coins are stored**: one spend is followed for each
  launcher, and no more.
* `Isolated`, `failures_isolated_iff` — **when a failure is one of its launcher only**.
-/

namespace SlotMachine.Listener

section

variable {Spend : Type} (D : Driver Spend) (height : ℕ) (spends : List Spend)
variable (store : SingletonStore)

/-- The launcher's step fails in the block. -/
def launcherFails (launcher : Bytes) : Bool :=
  match store launcher with
  | none => false
  | some record =>
      match stepRecord D height spends launcher record with
      | .ok _ => false
      | .error _ => true

/-- The launchers that are stepped: those before the first one that fails. -/
def visitedLaunchers (ids : List Bytes) : List Bytes :=
  ids.takeWhile fun launcher => !launcherFails D height spends store launcher

end

/-! ## The loop over the launchers -/

section

variable {Spend : Type} {D : Driver Spend} {height : ℕ} {spends : List Spend}
variable {store : SingletonStore} {launcher : Bytes} {ids : List Bytes}

variable (D height spends store) in
theorem stepLauncher_snd (l : Bytes) : (stepLauncher D height spends store l).2 = none ↔
    launcherFails D height spends store l = false := by
  unfold stepLauncher launcherFails
  cases store l with
  | none => simp
  | some record =>
      dsimp only
      cases stepRecord D height spends l record <;> simp

variable (D height spends store) in
/-- A step that fails stores nothing. -/
theorem stepLauncher_fails (l : Bytes) (h : launcherFails D height spends store l = true) :
    (stepLauncher D height spends store l).1 = store := by
  unfold stepLauncher
  unfold launcherFails at h
  cases hrecord : store l with
  | none => rfl
  | some record =>
      rw [hrecord] at h
      dsimp only at h ⊢
      cases hstep : stepRecord D height spends l record with
      | error e => rfl
      | ok record' =>
          rw [hstep] at h
          cases h

variable (D height spends) in
/-- A step is one of its launcher. -/
theorem stepLauncher_apply (hkeyed : store.Keyed) (l launcher : Bytes) :
    (stepLauncher D height spends store l).1 launcher
      = if launcher = l then (store launcher).map (visitRecord D height spends launcher)
        else store launcher :=
  Mutation.run_apply D hkeyed (.visit l) launcher

variable (D height spends) in
theorem keyed_stepLauncher (hkeyed : store.Keyed) (l : Bytes) :
    (stepLauncher D height spends store l).1.Keyed :=
  keyed_of_tally hkeyed fun launcher => stepLauncher_tally hkeyed l launcher

/-- What happens to other launchers does not make one fail. -/
theorem launcherFails_congr {store' : SingletonStore} (h : store' launcher = store launcher) :
    launcherFails D height spends store' launcher
      = launcherFails D height spends store launcher := by
  unfold launcherFails
  rw [h]

theorem visitedLaunchers_congr {store' : SingletonStore} (h : ∀ l ∈ ids, store' l = store l) :
    visitedLaunchers D height spends store' ids = visitedLaunchers D height spends store ids := by
  unfold visitedLaunchers
  induction ids with
  | nil => rfl
  | cons l ids ih =>
      rw [List.takeWhile_cons, List.takeWhile_cons, launcherFails_congr (h l List.mem_cons_self),
        ih fun k hk => h k (List.mem_cons_of_mem _ hk)]

theorem visitedLaunchers_subset : visitedLaunchers D height spends store ids ⊆ ids :=
  (List.takeWhile_prefix _).subset

/-- Without a failure all launchers are stepped. -/
theorem visitedLaunchers_eq (h : ∀ l ∈ ids, launcherFails D height spends store l = false) :
    visitedLaunchers D height spends store ids = ids :=
  List.takeWhile_eq_self_iff.2 fun l hl => by rw [h l hl]; rfl

variable (D height spends) in
/-- **The loop steps the launchers before the first one that fails.** -/
theorem forEach_stepLauncher_apply (hkeyed : store.Keyed) (hnodup : ids.Nodup) :
    (∀ launcher, (forEach (stepLauncher D height spends) store ids).1 launcher
      = if launcher ∈ visitedLaunchers D height spends store ids then
          (store launcher).map (visitRecord D height spends launcher)
        else store launcher) ∧
    ((forEach (stepLauncher D height spends) store ids).2 = none ↔
      ∀ l ∈ ids, launcherFails D height spends store l = false) := by
  induction ids generalizing store with
  | nil => exact ⟨fun _ => rfl, fun _ _ hl => absurd hl List.not_mem_nil, fun _ => rfl⟩
  | cons l ids ih =>
      rw [List.nodup_cons] at hnodup
      have happly := stepLauncher_apply D height spends hkeyed l
      have hkeyed' := keyed_stepLauncher D height spends hkeyed l
      have hsnd := stepLauncher_snd D height spends store l
      have hfails := stepLauncher_fails D height spends store l
      unfold forEach visitedLaunchers
      cases hstep : stepLauncher D height spends store l with
      | mk store₁ error =>
          rw [hstep] at happly hkeyed' hsnd hfails
          dsimp only at happly hkeyed' hsnd hfails
          cases error with
          | some e =>
              have hl : launcherFails D height spends store l = true := by
                rw [← Bool.not_eq_false, ← hsnd]
                exact Option.some_ne_none e
              obtain rfl : store₁ = store := hfails hl
              rw [List.takeWhile_cons_of_neg (by simp [hl])]
              refine ⟨fun launcher => (if_neg List.not_mem_nil).symm,
                fun h => absurd h (Option.some_ne_none e), fun hall => ?_⟩
              rw [hall l List.mem_cons_self] at hl
              cases hl
          | none =>
              have hl := hsnd.1 rfl
              have hids : ∀ k ∈ ids, store₁ k = store k := by
                intro k hk
                have hne : k ≠ l := fun heq => hnodup.1 (heq ▸ hk)
                exact (happly k).trans (if_neg hne)
              obtain ⟨hih, hnone⟩ := ih hkeyed' hnodup.2
              rw [List.takeWhile_cons_of_pos (by simp [hl])]
              refine ⟨fun launcher => ?_, ?_⟩
              · dsimp only
                rw [hih launcher, visitedLaunchers_congr hids]
                by_cases heq : launcher = l
                · subst heq
                  rw [if_neg fun hmem => hnodup.1 (visitedLaunchers_subset hmem),
                    if_pos List.mem_cons_self]
                  exact (happly launcher).trans (if_pos rfl)
                · have hother : store₁ launcher = store launcher :=
                    (happly launcher).trans (if_neg heq)
                  rw [hother]
                  simp only [List.mem_cons, heq, false_or]
                  rfl
              · rw [List.forall_mem_cons]
                dsimp only
                rw [hnone]
                constructor
                · intro hall
                  refine ⟨hl, fun k hk => ?_⟩
                  rw [← launcherFails_congr (hids k hk)]
                  exact hall k hk
                · intro hall k hk
                  rw [launcherFails_congr (hids k hk)]
                  exact hall.2 k hk

/-- A step keeps what decides when a record is removed. -/
theorem finalized_visitRecord {record : FollowedSingleton} :
    (visitRecord D height spends launcher record).Finalized height ↔ record.Finalized height := by
  unfold visitRecord
  cases hstep : stepRecord D height spends launcher record with
  | error e => exact Iff.rfl
  | ok record' =>
      have htally := stepRecord_tally hstep
      unfold FollowedSingleton.tally at htally
      rw [Prod.mk.injEq, Prod.mk.injEq] at htally
      unfold FollowedSingleton.Finalized
      rw [htally.2.1, htally.2.2]

/-- **What a block does to the record of a launcher** that is not removed. -/
theorem onBlock_apply (hkeyed : store.Keyed) (hnodup : ids.Nodup) {record : FollowedSingleton}
    (hrecord : store launcher = some record) (hlive : ¬ record.Finalized height) :
    (onBlock D ids height spends store).1 launcher
      = some (if launcher ∈ visitedLaunchers D height spends store ids then
          visitRecord D height spends launcher record else record) := by
  have hloop := (forEach_stepLauncher_apply D height spends hkeyed hnodup).1 launcher
  have hsome : (forEach (stepLauncher D height spends) store ids).1 launcher
      = some (if launcher ∈ visitedLaunchers D height spends store ids then
          visitRecord D height spends launcher record else record) := by
    rw [hloop, hrecord]
    split <;> rfl
  unfold onBlock
  cases hrun : forEach (stepLauncher D height spends) store ids with
  | mk store' error =>
      rw [hrun] at hsome
      dsimp only at hsome
      cases error with
      | some e => exact hsome
      | none =>
          show Option.filter _ (store' launcher) = _
          rw [hsome, Option.filter_some, if_pos]
          rw [decide_eq_true_eq]
          split
          · exact fun hf => hlive (finalized_visitRecord.1 hf)
          · exact hlive

end

/-! ## One block of the listener -/

section

variable {Spend : Type} (D : Driver Spend) (ids : List Bytes) (source : BlockSource Spend)

/-- `follow_blocks_after`, for one block. -/
def followBlock (height : ℕ) (store : SingletonStore) :
    SingletonStore × Except String (List (ℕ × Bytes)) :=
  followBlocksAfter (fun store height spends => (onBlock D ids height spends store).1) source
    (height - 1) height store

variable {D} {ids} {source}

/-- **The block is counted**, with what is stored up to the first failure. -/
theorem followBlock_eq {height : ℕ} (hpos : 0 < height) (hmax : height ≤ u32Max)
    {headerHash : Bytes} {spends : List Spend}
    (hsource : source height = .ok (some (headerHash, spends))) (store : SingletonStore) :
    followBlock D ids source height store
      = ((onBlock D ids height spends store).1, .ok [(height, headerHash)]) := by
  have hheights : heightsAfter (height - 1) height = [height] := by
    have hstart : saturatingAdd (height - 1) 1 = height := by
      unfold saturatingAdd
      omega
    unfold heightsAfter
    simp [hstart]
  unfold followBlock
  rw [followBlocksAfter_eq, hheights]
  simp only [followBlocks, hsource]
  rfl

end

/-! ## The coins of a singleton in a block -/

section

variable {Spend : Type} (D : Driver Spend) (height : ℕ) (spends : List Spend)

/-- A spend of the block takes one state of a singleton to the next. -/
def FollowedBy (launcher : Bytes) (s t : StoredSingletonState) : Prop :=
  s.melted = false ∧ ∃ spend ∈ spends, D.coinId (D.coin spend) = s.coinId ∧
    ∃ result, D.followSingletonSpend spend launcher = .ok result ∧
      t = stateAfterSpend D launcher height result

/-- The lineage ends with the block: it has melted, or the block does not spend the coin. -/
def AtEnd (s : StoredSingletonState) : Prop :=
  s.melted = true ∨ ∀ spend ∈ spends, D.coinId (D.coin spend) ≠ s.coinId

instance (s : StoredSingletonState) : Decidable (AtEnd D spends s) :=
  inferInstanceAs (Decidable (_ ∨ _))

/-- **The record has the last state of a singleton in the block.** -/
def CaughtUp (launcher : Bytes) (s : StoredSingletonState) (o : Option FollowedSingleton) : Prop :=
  ∃ record ∈ o, ∃ t ∈ record.current,
    Relation.ReflTransGen (FollowedBy D height spends launcher) s t ∧ AtEnd D spends t

/-- A launcher that is followed through a block, from a state that is not melted. -/
structure FollowedFrom (height : ℕ) (store : SingletonStore) (launcher : Bytes)
    (s : StoredSingletonState) : Prop where
  record : ∃ record, store launcher = some record ∧ record.status = .active ∧
    record.current = some s ∧ ¬ record.Finalized height
  live : s.melted = false

/-- The spend of a coin in the block. -/
def spendOf (s : StoredSingletonState) : Option Spend :=
  spends.find? fun spend => D.coinId (D.coin spend) == s.coinId

end

section

variable {Spend : Type} {D : Driver Spend} {height : ℕ} {spends : List Spend}
variable {store : SingletonStore} {launcher : Bytes} {ids : List Bytes}
variable {s : StoredSingletonState} {record : FollowedSingleton}

theorem spendOf_eq_none (hlive : s.melted = false) :
    spendOf D spends s = none ↔ AtEnd D spends s := by
  unfold spendOf AtEnd
  simp [List.find?_eq_none, hlive]

variable (D height spends launcher) in
theorem stepRecord_active (hstatus : record.status = .active) (hcurrent : record.current = some s)
    (hlive : s.melted = false) : stepRecord D height spends launcher record
      = match spendOf D spends s with
        | none => .ok record
        | some spend => (D.followSingletonSpend spend launcher).map fun result =>
            pushReplacement record (stateAfterSpend D launcher height result) height := by
  unfold stepRecord spendOf
  rw [hstatus, hcurrent]
  simp only [hlive]
  cases hspend : List.find? (fun spend => D.coinId (D.coin spend) == s.coinId) spends with
  | none => rfl
  | some spend =>
      cases hfollow : D.followSingletonSpend spend launcher <;> simp [hfollow] <;> rfl

/-- **When a launcher is caught up**: the block does not spend its coin, or the launcher is
stepped and the block does not spend the coin after that. -/
theorem caughtUp_onBlock (hkeyed : store.Keyed) (hnodup : ids.Nodup)
    (hfrom : FollowedFrom height store launcher s) :
    CaughtUp D height spends launcher s ((onBlock D ids height spends store).1 launcher) ↔
      AtEnd D spends s ∨ (launcher ∈ visitedLaunchers D height spends store ids ∧
        ∀ spend ∈ spendOf D spends s, ∀ result,
          D.followSingletonSpend spend launcher = .ok result →
          AtEnd D spends (stateAfterSpend D launcher height result)) := by
  obtain ⟨record, hrecord, hstatus, hcurrent, hkept⟩ := hfrom.record
  have hlive := hfrom.live
  have hstep := stepRecord_active D height spends launcher hstatus hcurrent hlive
  rw [onBlock_apply hkeyed hnodup hrecord hkept]
  cases hspend : spendOf D spends s with
  | none =>
      have hend : AtEnd D spends s := (spendOf_eq_none hlive).1 hspend
      have hvisit : visitRecord D height spends launcher record = record := by
        unfold visitRecord
        rw [hstep, hspend]
      rw [hvisit, ite_self]
      exact ⟨fun _ => Or.inl hend, fun _ => ⟨record, rfl, s, hcurrent, .refl, hend⟩⟩
  | some spend =>
      rw [hspend] at hstep
      dsimp only at hstep
      have hnotEnd : ¬ AtEnd D spends s := by
        rw [← spendOf_eq_none hlive, hspend]
        exact nofun
      have hmem : spend ∈ spends := List.mem_of_find?_eq_some hspend
      have hcoin : D.coinId (D.coin spend) = s.coinId := by
        simpa using List.find?_some hspend
      by_cases hvisited : launcher ∈ visitedLaunchers D height spends store ids
      · have hok : launcherFails D height spends store launcher = false := by
          simpa using List.mem_takeWhile_imp hvisited
        rw [if_pos hvisited]
        cases hfollow : D.followSingletonSpend spend launcher with
        | error e =>
            rw [hfollow] at hstep
            unfold launcherFails at hok
            rw [hrecord] at hok
            dsimp only at hok
            rw [hstep] at hok
            cases hok
        | ok result =>
            have hvisit : visitRecord D height spends launcher record
                = pushReplacement record (stateAfterSpend D launcher height result) height := by
              unfold visitRecord
              rw [hstep, hfollow]
              rfl
            rw [hvisit]
            constructor
            · rintro ⟨record', hrecord', t, ht, -, hend⟩
              obtain rfl := Option.some.inj hrecord'
              obtain rfl : stateAfterSpend D launcher height result = t := Option.some.inj ht
              refine Or.inr ⟨hvisited, fun spend' hspend' result' hresult' => ?_⟩
              obtain rfl := Option.some.inj hspend'
              rw [hfollow] at hresult'
              rwa [← Except.ok.inj hresult']
            · rintro (hend | ⟨-, hend⟩)
              · exact absurd hend hnotEnd
              · have hchild : FollowedBy D height spends launcher s
                    (stateAfterSpend D launcher height result) :=
                  ⟨hlive, spend, hmem, hcoin, result, hfollow, rfl⟩
                exact ⟨_, rfl, _, rfl, .single hchild, hend spend rfl result hfollow⟩
      · rw [if_neg hvisited]
        constructor
        · rintro ⟨record', hrecord', t, ht, -, hend⟩
          obtain rfl := Option.some.inj hrecord'
          obtain rfl := Option.some.inj (hcurrent.symm.trans ht)
          exact absurd hend hnotEnd
        · rintro (hend | ⟨hmem', -⟩)
          · exact absurd hend hnotEnd
          · exact absurd hmem' hvisited

/-- **When the block is followed to its end**: for every launcher the block does not spend
its coin, or no launcher up to it fails and the block does not spend the coin after that. -/
theorem block_followed_iff (D : Driver Spend) {height : ℕ} (hpos : 0 < height)
    (hmax : height ≤ u32Max) {source : BlockSource Spend} {headerHash : Bytes}
    {spends : List Spend} (hsource : source height = .ok (some (headerHash, spends)))
    {store : SingletonStore} (hkeyed : store.Keyed) {ids : List Bytes} (hnodup : ids.Nodup) :
    (∀ launcher s, FollowedFrom height store launcher s →
      CaughtUp D height spends launcher s ((followBlock D ids source height store).1 launcher)) ↔
    ∀ launcher s, FollowedFrom height store launcher s →
      AtEnd D spends s ∨ (launcher ∈ visitedLaunchers D height spends store ids ∧
        ∀ spend ∈ spendOf D spends s, ∀ result,
          D.followSingletonSpend spend launcher = .ok result →
          AtEnd D spends (stateAfterSpend D launcher height result)) := by
  rw [followBlock_eq hpos hmax hsource]
  exact ⟨fun h launcher s hfrom => (caughtUp_onBlock hkeyed hnodup hfrom).1 (h launcher s hfrom),
    fun h launcher s hfrom => (caughtUp_onBlock hkeyed hnodup hfrom).2 (h launcher s hfrom)⟩

end

/-! ## What a failure is about -/

section

variable {Spend : Type}

/-- **A failure is one of its launcher only**: the others get what they get without it, and
the block is not counted. -/
def Isolated (D : Driver Spend) (ids : List Bytes) (source : BlockSource Spend) (height : ℕ)
    (spends : List Spend) (store : SingletonStore) : Prop :=
  ∀ launcher ∈ ids, launcherFails D height spends store launcher = true →
    (∀ other, other ≠ launcher →
      (followBlock D ids source height store).1 other
        = (followBlock D (ids.erase launcher) source height
            (Function.update store launcher none)).1 other) ∧
    ∀ followed, (followBlock D ids source height store).2 = .ok followed →
      height ∉ followed.map Prod.fst

variable {D : Driver Spend} {ids : List Bytes} {height : ℕ} {spends : List Spend}
variable {store : SingletonStore}

/-- **Failures are isolated exactly in blocks without any**: one that has some is counted. -/
theorem failures_isolated_iff (D : Driver Spend) (ids : List Bytes) {height : ℕ}
    (hpos : 0 < height) (hmax : height ≤ u32Max) {source : BlockSource Spend}
    {headerHash : Bytes} {spends : List Spend}
    (hsource : source height = .ok (some (headerHash, spends))) (store : SingletonStore) :
    Isolated D ids source height spends store ↔
      ∀ launcher ∈ ids, launcherFails D height spends store launcher = false := by
  constructor
  · intro hisolated launcher hmem
    rw [← Bool.not_eq_true]
    intro hfails
    have hcounted : (followBlock D ids source height store).2 = .ok [(height, headerHash)] :=
      congrArg Prod.snd (followBlock_eq hpos hmax hsource store)
    exact (hisolated launcher hmem hfails).2 _ hcounted (List.mem_singleton_self _)
  · intro hnone launcher hmem hfails
    rw [hnone launcher hmem] at hfails
    cases hfails

end

/-! ## Two spends of a singleton, as an example -/

namespace BlockExample

open Xchandles.Example (bytes32)

/-- A driver for spends that are parsed already.  It fails for that of an NFT without a child. -/
def strictDriver : Driver SingletonSpend where
  coinId := parsedDriver.coinId
  coin := SingletonSpend.coin
  tryMatchSpend := parsedDriver.tryMatchSpend
  followSingletonSpend spend launcherId :=
    if spend.child.melted ∧ spend.child.nft.isSome then .error "missing child"
    else parsedDriver.followSingletonSpend spend launcherId

/-- The first coin of a singleton. -/
def eve (launcher : Byte) : Coin := ⟨bytes32 launcher, bytes32 22, 1⟩

/-- The coin that the spend of another one creates. -/
def childOf (parent : Coin) : Coin := ⟨strictDriver.coinId parent, bytes32 22, 1⟩

/-- A spend that creates it. -/
def spendOfCoin (launcher : Byte) (parent : Coin) : SingletonSpend :=
  ⟨parent, bytes32 launcher, ⟨childOf parent, bytes32 23, false, none⟩⟩

/-- A launcher that is followed from its first coin. -/
def followed (launcher : Byte) : FollowedSingleton where
  launcherId := bytes32 launcher
  expectedFullPuzzleHash := bytes32 22
  expectedInnerPuzzleHash := bytes32 23
  discoveryHeight := 90
  status := .active
  referenceCount := 1
  dereferenceHeight := none
  current := some (strictDriver.fromCoin (bytes32 launcher) (eve launcher) (bytes32 23)
    90 false none none)
  history := []

/-- A store of one launcher. -/
def followedStore : SingletonStore := SingletonStore.upsert (fun _ => none) (followed 1)

/-- A node with a block of some spends. -/
def node (spends : List SingletonSpend) : BlockSource SingletonSpend := fun _ =>
  .ok (some (bytes32 100, spends))

/-- The spend of the first coin, and that of the coin it creates. -/
def first : SingletonSpend := spendOfCoin 1 (eve 1)

def second : SingletonSpend := spendOfCoin 1 (childOf (eve 1))

theorem followedStore_cases {l : Bytes} {r : FollowedSingleton} (h : r ∈ followedStore l) :
    l = bytes32 1 ∧ r = followed 1 := by
  by_cases hl : l = bytes32 1
  · subst hl
    exact ⟨rfl, (Option.some.inj h).symm⟩
  · have hnone := Function.update_of_ne hl (some (followed 1)) fun _ => none
    cases hnone.symm.trans h

theorem keyed_followedStore : followedStore.Keyed := by
  intro l r hr
  obtain ⟨rfl, rfl⟩ := followedStore_cases hr
  rfl

theorem followedFrom_followedStore : FollowedFrom 100 followedStore (bytes32 1)
    (strictDriver.fromCoin (bytes32 1) (eve 1) (bytes32 23) 90 false none none) where
  record := ⟨followed 1, rfl, rfl, rfl, by decide⟩
  live := rfl

theorem spendOf_first (rest : List SingletonSpend) : spendOf strictDriver (first :: rest)
    (strictDriver.fromCoin (bytes32 1) (eve 1) (bytes32 23) 90 false none none) = some first :=
  List.find?_cons_of_pos (beq_self_eq_true _)

theorem stepRecord_first (rest : List SingletonSpend) :
    stepRecord strictDriver 100 (first :: rest) (bytes32 1) (followed 1)
      = .ok (pushReplacement (followed 1)
          (stateAfterSpend strictDriver (bytes32 1) 100 (.next first.child)) 100) := by
  rw [stepRecord_active _ _ _ _ rfl rfl rfl, spendOf_first]
  rfl

theorem launcherFails_first (rest : List SingletonSpend) :
    launcherFails strictDriver 100 (first :: rest) followedStore (bytes32 1) = false := by
  unfold launcherFails
  rw [show followedStore (bytes32 1) = some (followed 1) from rfl]
  dsimp only
  rw [stepRecord_first]

theorem visitedLaunchers_first (rest : List SingletonSpend) :
    visitedLaunchers strictDriver 100 (first :: rest) followedStore [bytes32 1] = [bytes32 1] :=
  visitedLaunchers_eq fun l hl => by
    rw [List.mem_singleton.1 hl]
    exact launcherFails_first rest

/-- The last spend of an NFT, which the driver does not parse. -/
def lastOfNft : SingletonSpend := ⟨eve 2, bytes32 2, ⟨eve 2, bytes32 23, true, some
  ⟨bytes32 24, bytes32 25, none, bytes32 26, 300, bytes32 27, none⟩⟩⟩

/-- A store of two launchers. -/
def twoStore : SingletonStore := SingletonStore.upsert followedStore (followed 2)

theorem twoStore_erase : Function.update twoStore (bytes32 2) none = followedStore := by
  funext l
  by_cases hl : l = bytes32 2
  · subst hl
    rw [Function.update_self]
    exact (Function.update_of_ne (show bytes32 2 ≠ bytes32 1 by decide) (some (followed 1))
      fun _ => none).symm
  · rw [Function.update_of_ne hl]
    exact Function.update_of_ne hl _ _

theorem stepRecord_nft : stepRecord strictDriver 100 [first, lastOfNft] (bytes32 2) (followed 2)
    = .error "missing child" := by
  have hne : strictDriver.coinId (eve 1) ≠ strictDriver.coinId (eve 2) := by decide +kernel
  have hspend : spendOf strictDriver [first, lastOfNft] (strictDriver.fromCoin (bytes32 2) (eve 2)
      (bytes32 23) 90 false none none) = some lastOfNft := by
    unfold spendOf
    rw [List.find?_cons_of_neg]
    · exact List.find?_cons_of_pos (beq_self_eq_true _)
    · exact fun heq => hne (eq_of_beq heq)
  rw [stepRecord_active _ _ _ _ rfl rfl rfl, hspend]
  rfl

theorem launcherFails_nft :
    launcherFails strictDriver 100 [first, lastOfNft] twoStore (bytes32 2) = true := by
  unfold launcherFails
  rw [show twoStore (bytes32 2) = some (followed 2) from rfl]
  dsimp only
  rw [stepRecord_nft]

/-- The height of the state that is stored for a launcher. -/
def heightOf (store : SingletonStore) (launcher : Bytes) : Option ℕ :=
  (store launcher).bind fun record => record.current.map fun s => s.confirmationHeight

/-- The coins are different ones. -/
theorem coinId_childOf_ne :
    strictDriver.coinId (eve 1) ≠ strictDriver.coinId (childOf (eve 1)) := by
  decide +kernel

end BlockExample

open BlockExample in
open Xchandles.Example (bytes32) in
/-- A block with one spend of the singleton. -/
theorem block_followed_iff_spent :
    node [first] 100 = .ok (some (bytes32 100, [first])) ∧
      followedStore.Keyed ∧ [bytes32 1].Nodup ∧
      ∀ launcher s, FollowedFrom 100 followedStore launcher s →
        CaughtUp strictDriver 100 [first] launcher s
          ((followBlock strictDriver [bytes32 1] (node [first]) 100 followedStore).1 launcher) := by
  refine ⟨rfl, keyed_followedStore, List.nodup_singleton _, ?_⟩
  refine (block_followed_iff strictDriver (by decide) (by decide) rfl keyed_followedStore
    (List.nodup_singleton _)).2 fun launcher s hfrom => ?_
  obtain ⟨r, hr, -, hcurrent, -⟩ := hfrom.record
  obtain ⟨rfl, rfl⟩ := followedStore_cases hr
  obtain rfl := Option.some.inj hcurrent
  refine Or.inr ⟨?_, fun spend hspend result hresult => ?_⟩
  · rw [visitedLaunchers_first]
    exact List.mem_singleton_self _
  rw [spendOf_first, Option.mem_some_iff] at hspend
  subst hspend
  obtain rfl := Except.ok.inj hresult
  refine Or.inr fun spend' hspend' => ?_
  rw [List.mem_singleton.1 hspend']
  exact coinId_childOf_ne

open BlockExample in
open Xchandles.Example (bytes32) in
/-- **The stored coin is spent**: the block spends it and the coin after it, and only the
first of the two spends is followed. -/
theorem block_followed_fails :
    (∃ s, FollowedFrom 100 followedStore (bytes32 1) s ∧
      ¬ CaughtUp strictDriver 100 [first, second] (bytes32 1) s
        ((followBlock strictDriver [bytes32 1] (node [first, second]) 100 followedStore).1
          (bytes32 1))) ∧
    ((followBlock strictDriver [bytes32 1] (node [first, second]) 100 followedStore).1
      (bytes32 1)).bind (fun r => r.current.map fun s => s.coinId)
        = some (strictDriver.coinId second.coin) := by
  refine ⟨⟨_, followedFrom_followedStore, fun hcaught => ?_⟩, ?_⟩
  · rw [followBlock_eq (by decide) (by decide) rfl, caughtUp_onBlock keyed_followedStore
      (List.nodup_singleton _) followedFrom_followedStore] at hcaught
    obtain hend | ⟨-, hend⟩ := hcaught
    · exact (hend.resolve_left nofun) first List.mem_cons_self rfl
    · have hchild := hend first (spendOf_first _) _ rfl
      exact (hchild.resolve_left nofun) second (List.mem_cons_of_mem _ List.mem_cons_self) rfl
  · rw [followBlock_eq (by decide) (by decide) rfl, onBlock_apply keyed_followedStore
      (List.nodup_singleton _) (show followedStore (bytes32 1) = some (followed 1) from rfl)
      (by decide), visitedLaunchers_first, if_pos (List.mem_singleton_self _)]
    unfold visitRecord
    rw [stepRecord_first]
    rfl

open BlockExample in
open Xchandles.Example (bytes32) in
/-- A block without a failure. -/
theorem failures_isolated_iff_spent :
    node [first] 100 = .ok (some (bytes32 100, [first])) ∧
      Isolated strictDriver [bytes32 1] (node [first]) 100 [first] followedStore := by
  refine ⟨rfl, (failures_isolated_iff strictDriver [bytes32 1] (by decide) (by decide) rfl
    followedStore).2 fun launcher hmem => ?_⟩
  rw [List.mem_singleton.1 hmem]
  exact launcherFails_first []

open BlockExample in
open Xchandles.Example (bytes32) in
/-- **A failure of one launcher keeps another from its update**: the second launcher fails,
the first one is left at the height 90, and the block is counted. -/
theorem failures_isolated_fails :
    launcherFails strictDriver 100 [first, lastOfNft] twoStore (bytes32 2) = true ∧
    heightOf (followBlock strictDriver [bytes32 2, bytes32 1] (node [first, lastOfNft]) 100
      twoStore).1 (bytes32 1) = some 90 ∧
    heightOf (followBlock strictDriver [bytes32 1] (node [first, lastOfNft]) 100
      (Function.update twoStore (bytes32 2) none)).1 (bytes32 1) = some 100 ∧
    (followBlock strictDriver [bytes32 2, bytes32 1] (node [first, lastOfNft]) 100 twoStore).2
      = .ok [(100, bytes32 100)] ∧
    ¬ Isolated strictDriver [bytes32 2, bytes32 1] (node [first, lastOfNft]) 100
      [first, lastOfNft] twoStore := by
  have hcounted : (followBlock strictDriver [bytes32 2, bytes32 1] (node [first, lastOfNft]) 100
      twoStore).2 = .ok [(100, bytes32 100)] := by
    rw [followBlock_eq (by decide) (by decide) rfl]
  refine ⟨launcherFails_nft, ?_, ?_, hcounted, fun hisolated => ?_⟩
  · rw [followBlock_eq (by decide) (by decide) rfl]
    unfold onBlock forEach stepLauncher
    rw [show twoStore (bytes32 2) = some (followed 2) from rfl]
    dsimp only
    rw [stepRecord_nft]
    rfl
  · rw [followBlock_eq (by decide) (by decide) rfl, twoStore_erase]
    unfold heightOf
    rw [onBlock_apply keyed_followedStore (List.nodup_singleton _)
      (show followedStore (bytes32 1) = some (followed 1) from rfl) (by decide),
      visitedLaunchers_first, if_pos (List.mem_singleton_self _)]
    unfold visitRecord
    rw [stepRecord_first]
    rfl
  · exact (hisolated (bytes32 2) List.mem_cons_self launcherFails_nft).2 _ hcounted
      (List.mem_singleton_self _)

end SlotMachine.Listener
