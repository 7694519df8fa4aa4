import SlotMachine.Listener.ReferenceCounts

/-!
# Changes of the followed singletons

A call of the indexer is a list of small changes, and each of them is one of single
records.

* `Mutation` — one change of the records.
* `Call`, `Call.run_eq` — **every call is a list of changes**, up to the first that fails.
* `Mutation.run_apply` — what a change does to a record.
* `stepRecord_eq_ok` — what a block does to one.
* `Along.invariant` — **what every change keeps, a call keeps**.
-/

namespace SlotMachine.Listener

/-! ## Changes of the records -/

/-- One change of the records. -/
inductive Mutation where
  | discover (reference : SingletonReference)
  | drop (launcher : Bytes)
  | rename (launcher : Bytes)
  | visit (launcher : Bytes)
  | cleanup

section

variable {Spend : Type} (D : Driver Spend)

/-- A change in a block. -/
def Mutation.run (height : ℕ) (spends : List Spend) (store : SingletonStore) : Mutation → Outcome
  | .discover reference => discoverReference D height spends store reference
  | .drop launcher => (store.dropReference launcher height, none)
  | .rename launcher => (rereference store launcher, none)
  | .visit launcher => stepLauncher D height spends store launcher
  | .cleanup => (cleanupFinalized height store, none)

/-- What a replaced slot changes. -/
def replacementMutations (m : HandleSlotValue × HandleSlotValue) : List Mutation :=
  (dereferencedLaunchers m.1 m.2).map .drop
    ++ [.rename m.2.ownerLauncherId, .rename m.2.resolvedLauncherId]

/-- What a log changes. -/
def logMutations (log : ActionLog) : List Mutation :=
  (referencesFromActionLog log).map .discover ++ log.replacements.flatMap replacementMutations

/-- A call of the indexer. -/
inductive Call (Spend : Type) where
  | transition (height : ℕ) (spends : List Spend) (logs : List ActionLog)
  | block (height : ℕ) (spends : List Spend) (ids : List Bytes)

namespace Call

variable {Spend : Type}

def height : Call Spend → ℕ
  | transition height _ _ => height
  | block height _ _ => height

def spends : Call Spend → List Spend
  | transition _ spends _ => spends
  | block _ spends _ => spends

/-- What the call changes, if nothing fails. -/
def mutations : Call Spend → List Mutation
  | transition _ _ logs => logs.flatMap logMutations
  | block _ _ ids => ids.map .visit ++ [.cleanup]

/-- The records after the call, which may have failed. -/
def run (D : Driver Spend) (store : SingletonStore) : Call Spend → SingletonStore
  | transition height spends logs => (onRegistryTransition D height spends store logs).1
  | block height spends ids => (onBlock D ids height spends store).1

end Call

/-! ## Calls as changes -/

section

variable {α β : Type} {f : SingletonStore → α → Outcome}

theorem forEach_append (store : SingletonStore) (as bs : List α) :
    forEach f store (as ++ bs) = match forEach f store as with
      | (store', none) => forEach f store' bs
      | (store', some e) => (store', some e) := by
  induction as generalizing store with
  | nil => rfl
  | cons a as ih =>
      rw [List.cons_append, forEach, forEach]
      cases f store a with
      | mk store' error =>
          cases error with
          | none => exact ih store'
          | some e => rfl

theorem forEach_map (g : β → α) (store : SingletonStore) (bs : List β) :
    forEach f store (bs.map g) = forEach (fun store b => f store (g b)) store bs := by
  induction bs generalizing store with
  | nil => rfl
  | cons b bs ih =>
      rw [List.map_cons, forEach, forEach]
      cases f store (g b) with
      | mk store' error =>
          cases error with
          | none => exact ih store'
          | some e => rfl

theorem forEach_flatMap (g : β → List α) (store : SingletonStore) (bs : List β) :
    forEach f store (bs.flatMap g) = forEach (fun store b => forEach f store (g b)) store bs := by
  induction bs generalizing store with
  | nil => rfl
  | cons b bs ih =>
      rw [List.flatMap_cons, forEach_append, forEach]
      cases forEach f store (g b) with
      | mk store' error =>
          cases error with
          | none => exact ih store'
          | some e => rfl

/-- What cannot fail goes on to the end. -/
theorem forEach_foldl {g : SingletonStore → α → SingletonStore}
    (h : ∀ store a, f store a = (g store a, none)) (store : SingletonStore) (as : List α) :
    forEach f store as = (as.foldl g store, none) := by
  induction as generalizing store with
  | nil => rfl
  | cons a as ih =>
      rw [forEach, h, List.foldl_cons]
      exact ih (g store a)

end

variable {height : ℕ} {spends : List Spend}

theorem forEach_replacementMutations (store : SingletonStore)
    (m : HandleSlotValue × HandleSlotValue) :
    forEach (Mutation.run D height spends) store (replacementMutations m)
      = (trackReplacement height store m, none) := by
  have hdrop : forEach (fun store b => Mutation.run D height spends store (.drop b)) store
      (dereferencedLaunchers m.1 m.2) = ((dereferencedLaunchers m.1 m.2).foldl
        (fun store launcher => store.dropReference launcher height) store, none) :=
    forEach_foldl (fun _ _ => rfl) ..
  unfold replacementMutations trackReplacement
  rw [forEach_append, forEach_map, hdrop]
  rfl

theorem forEach_logMutations (store : SingletonStore) (log : ActionLog) :
    forEach (Mutation.run D height spends) store (logMutations log)
      = onActionLog D height spends store log := by
  unfold logMutations onActionLog
  rw [forEach_append, forEach_map]
  show (match forEach (discoverReference D height spends) store _ with
    | (store', none) => _
    | (store', some e) => (store', some e)) = _
  cases forEach (discoverReference D height spends) store (referencesFromActionLog log) with
  | mk store' error =>
      cases error with
      | some e => rfl
      | none =>
          show forEach _ store' (log.replacements.flatMap replacementMutations) = _
          rw [forEach_flatMap, forEach_foldl fun store m =>
            forEach_replacementMutations D store m]
          rfl

/-- **Every call is a list of changes**, up to the first that fails. -/
theorem Call.run_eq (store : SingletonStore) (call : Call Spend) : call.run D store
    = (forEach (Mutation.run D call.height call.spends) store call.mutations).1 := by
  cases call with
  | transition height spends logs =>
      show (onRegistryTransition D height spends store logs).1
        = (forEach (Mutation.run D height spends) store (logs.flatMap logMutations)).1
      unfold onRegistryTransition
      rw [forEach_flatMap]
      refine congrArg Prod.fst (congrArg (forEach · store logs) ?_)
      funext store log
      exact (forEach_logMutations D store log).symm
  | block height spends ids =>
      show (onBlock D ids height spends store).1
        = (forEach (Mutation.run D height spends) store (ids.map .visit ++ [.cleanup])).1
      unfold onBlock
      rw [forEach_append, forEach_map]
      show _ = (match forEach (stepLauncher D height spends) store ids with
        | (store', none) => _
        | (store', some e) => (store', some e)).1
      cases forEach (stepLauncher D height spends) store ids with
      | mk store' error => cases error <;> rfl

/-! ## What a change does to a record -/

/-- The change is one of the record. -/
def Mutation.Hits (launcher : Bytes) : Mutation → Prop
  | .discover reference => launcher = reference.launcherId
  | .drop l => launcher = l
  | .rename l => launcher = l
  | .visit l => launcher = l
  | .cleanup => True

instance (launcher : Bytes) : (m : Mutation) → Decidable (m.Hits launcher)
  | .discover reference => inferInstanceAs (Decidable (launcher = reference.launcherId))
  | .drop l => inferInstanceAs (Decidable (launcher = l))
  | .rename l => inferInstanceAs (Decidable (launcher = l))
  | .visit l => inferInstanceAs (Decidable (launcher = l))
  | .cleanup => isTrue trivial

/-- What a block does to a record, if only to leave it. -/
def visitRecord (height : ℕ) (spends : List Spend) (launcher : Bytes)
    (record : FollowedSingleton) : FollowedSingleton :=
  match stepRecord D height spends launcher record with
  | .ok record' => record'
  | .error _ => record

/-- What the change does to a record it is one of. -/
def Mutation.effect (height : ℕ) (spends : List Spend) (launcher : Bytes)
    (o : Option FollowedSingleton) : Mutation → Option FollowedSingleton
  | .discover reference =>
      if ∃ record, o = some record ∧ record.Followed then o.map FollowedSingleton.bumped
      else match discoverSingletonInBlock D spends reference with
        | .error _ => o
        | .ok result => some (discoveredRecord D o height reference result)
  | .drop _ => o.map fun record => record.dropped height
  | .rename _ => o.map FollowedSingleton.renamed
  | .visit _ => o.map (visitRecord D height spends launcher)
  | .cleanup => o.filter fun record => decide ¬record.Finalized height

/-- **A change is one of single records.** -/
theorem Mutation.run_apply {store : SingletonStore} (hkeyed : store.Keyed) (m : Mutation)
    (launcher : Bytes) : (m.run D height spends store).1 launcher
      = if m.Hits launcher then m.effect D height spends launcher (store launcher)
        else store launcher := by
  cases m with
  | drop l =>
      by_cases hl : launcher = l
      · subst hl
        rw [if_pos (show Hits launcher (.drop launcher) from rfl)]
        exact dropReference_self
      · rw [if_neg (show ¬ Hits launcher (.drop l) from hl)]
        exact dropReference_of_ne hl
  | rename l =>
      by_cases hl : launcher = l
      · subst hl
        rw [if_pos (show Hits launcher (.rename launcher) from rfl)]
        exact rereference_self
      · rw [if_neg (show ¬ Hits launcher (.rename l) from hl)]
        exact rereference_of_ne hl
  | cleanup => rfl
  | visit l =>
      show (stepLauncher D height spends store l).1 launcher = _
      unfold stepLauncher
      by_cases hl : launcher = l
      · subst hl
        rw [if_pos (show Hits launcher (.visit launcher) from rfl)]
        cases hrecord : store launcher with
        | none => exact hrecord
        | some record =>
            dsimp only [effect, Option.map_some, visitRecord]
            cases hstep : stepRecord D height spends launcher record with
            | error e => exact hrecord
            | ok record' =>
                have hid : record'.launcherId = launcher :=
                  (congrArg Prod.fst (stepRecord_tally hstep)).trans (hkeyed _ record hrecord)
                show (store.upsert record') launcher = _
                unfold SingletonStore.upsert
                rw [hid, Function.update_self]
      · rw [if_neg (show ¬ Hits launcher (.visit l) from hl)]
        cases hrecord : store l with
        | none => rfl
        | some record =>
            dsimp only
            cases hstep : stepRecord D height spends l record with
            | error e => rfl
            | ok record' =>
                have hid : record'.launcherId = l :=
                  (congrArg Prod.fst (stepRecord_tally hstep)).trans (hkeyed _ record hrecord)
                show (store.upsert record') launcher = _
                unfold SingletonStore.upsert
                rw [hid, Function.update_of_ne hl]
  | discover reference =>
      show (discoverReference D height spends store reference).1 launcher = _
      unfold discoverReference
      dsimp only
      by_cases hl : launcher = reference.launcherId
      · subst hl
        rw [if_pos (show Hits reference.launcherId (.discover reference) from rfl)]
        dsimp only [effect]
        split
        · exact Function.update_self ..
        · cases discoverSingletonInBlock D spends reference with
          | error e => rfl
          | ok result => exact Function.update_self ..
      · rw [if_neg (show ¬ Hits launcher (.discover reference) from hl)]
        split
        · exact Function.update_of_ne hl ..
        · cases discoverSingletonInBlock D spends reference with
          | error e => rfl
          | ok result => exact Function.update_of_ne hl ..

/-- **What a block does to a record**: a retry finds a singleton or too many, a spend of the
current coin is followed, or nothing happens. -/
theorem stepRecord_eq_ok {launcher : Bytes} {record record' : FollowedSingleton}
    (h : stepRecord D height spends launcher record = .ok record') :
    record' = record ∨
    (record.status = .incomplete ∧ ∃ result, discoverSingletonInBlock D spends
        ⟨record.launcherId, record.expectedFullPuzzleHash, record.expectedInnerPuzzleHash⟩
          = .ok result ∧
      ((∃ found, result = .found found ∧ record' = { record with
          status := .active
          current := some (D.fromDiscovered record.launcherId found height) }) ∨
        (result = .mismatch ∧ record' = { record with status := .mismatch }))) ∨
    (record.status = .active ∧ ∃ current ∈ record.current, current.melted = false ∧
      ∃ spend, spends.find? (fun s => D.coinId (D.coin s) == current.coinId) = some spend ∧
      ∃ result, D.followSingletonSpend spend launcher = .ok result ∧
        record' = pushReplacement record (stateAfterSpend D launcher height result) height) := by
  unfold stepRecord at h
  split at h
  · next hstatus =>
      unfold retryDiscovery at h
      cases hresult : discoverSingletonInBlock D spends ⟨record.launcherId,
          record.expectedFullPuzzleHash, record.expectedInnerPuzzleHash⟩ with
      | error e =>
          rw [hresult] at h
          cases h
      | ok result =>
          rw [hresult] at h
          cases result with
          | incomplete =>
              cases h
              exact Or.inl rfl
          | found singleton =>
              cases h
              exact Or.inr (Or.inl ⟨hstatus, _, rfl, Or.inl ⟨singleton, rfl, rfl⟩⟩)
          | mismatch =>
              cases h
              exact Or.inr (Or.inl ⟨hstatus, _, rfl, Or.inr ⟨rfl, rfl⟩⟩)
  · next current hstatus hcurrent =>
      split at h
      · cases h
        exact Or.inl rfl
      · next hlive =>
          split at h
          · cases h
            exact Or.inl rfl
          · next spend hspend =>
              cases hfollow : D.followSingletonSpend spend launcher with
              | error e =>
                  rw [hfollow] at h
                  cases h
              | ok result =>
                  rw [hfollow] at h
                  cases h
                  exact Or.inr (Or.inr ⟨hstatus, current, hcurrent, Bool.eq_false_iff.2 hlive,
                    spend, hspend, result, hfollow, rfl⟩)
  · cases h
    exact Or.inl rfl

/-- The new states are ones of the block's height. -/
theorem stepRecord_cases {launcher : Bytes} {record record' : FollowedSingleton}
    (h : stepRecord D height spends launcher record = .ok record') :
    record' = record ∨
    (record.status = .incomplete ∧ ∃ result, discoverSingletonInBlock D spends
        ⟨record.launcherId, record.expectedFullPuzzleHash, record.expectedInnerPuzzleHash⟩
          = .ok result ∧ result ≠ .incomplete ∧
      ((∃ s : StoredSingletonState, s.confirmationHeight = height ∧
          record' = { record with status := .active, current := some s }) ∨
        record' = { record with status := .mismatch })) ∨
    ∃ s : StoredSingletonState, s.confirmationHeight = height ∧
      record.status = .active ∧ record' = pushReplacement record s height := by
  rcases stepRecord_eq_ok D h with heq | ⟨hstatus, result, hresult, hcase⟩ |
    ⟨hstatus, current, -, -, spend, -, result, -, heq⟩
  · exact Or.inl heq
  · rcases hcase with ⟨found, rfl, heq⟩ | ⟨rfl, heq⟩
    · exact Or.inr (Or.inl ⟨hstatus, _, hresult, nofun, Or.inl ⟨_, rfl, heq⟩⟩)
    · exact Or.inr (Or.inl ⟨hstatus, _, hresult, nofun, Or.inr heq⟩)
  · exact Or.inr (Or.inr ⟨_, by cases result <;> rfl, hstatus, heq⟩)

/-! ## Runs of changes -/

section

variable {D} {P : SingletonStore → Mutation → Prop} {I : SingletonStore → Prop}

/-- A condition on the changes that take place, each in the store it finds. -/
def Along (D : Driver Spend) (height : ℕ) (spends : List Spend)
    (P : SingletonStore → Mutation → Prop) : SingletonStore → List Mutation → Prop
  | _, [] => True
  | store, m :: ms => P store m ∧ ∀ store', m.run D height spends store = (store', none) →
      Along D height spends P store' ms

/-- **What every change keeps, a list of changes keeps**, up to the first that fails. -/
theorem Along.invariant
    (hstep : ∀ store m, P store m → I store → I (m.run D height spends store).1)
    {ms : List Mutation} {store : SingletonStore} (h : Along D height spends P store ms)
    (hI : I store) : I (forEach (Mutation.run D height spends) store ms).1 := by
  induction ms generalizing store with
  | nil => exact hI
  | cons m ms ih =>
      have hnext := hstep store m h.1 hI
      unfold forEach
      cases hrun : m.run D height spends store with
      | mk store' error =>
          rw [hrun] at hnext
          cases error with
          | some e => exact hnext
          | none => exact ih (h.2 store' hrun) hnext

end

end

end SlotMachine.Listener
