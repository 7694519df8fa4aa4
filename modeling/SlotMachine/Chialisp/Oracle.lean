import SlotMachine.Chialisp.Expire

/-!
# The Chialisp `oracle`

The Rue action hashes the slot value that it is given.  The Chialisp action takes the
value apart into `counter` and `slot_value_rest`, and hashes `slot_value`: a name that
nothing binds, which Chialisp compiles to the atom of its letters.

* `oracle` — the action under `puzzles/actions/xchandles`.
* `Reads` — what an oracle is for: it spends the slot of the given value, and its one
  announcement is of the hash of that value.  `Reads.value_eq` says that **such an
  announcement determines the value**, `rue_oracle_reads` that the Rue action reads.
* `oracle_agrees_iff` — **the two actions agree on nothing that the Chialisp action does
  not raise on**, collisions apart; `oracle_disagrees` — they do not always.
-/

namespace SlotMachine.Chialisp

open SlotMachine.Xchandles
open Rue.Xchandles (ConstantTrees)

/-- The letters of `slot_value`. -/
def slotValueName : Bytes := [115, 108, 111, 116, 95, 118, 97, 108, 117, 101]

/-- `get_conditions`. -/
def oracleConditions (M : Machine) (K : ConstantTrees) (spentDataTreehash
    createdDataTreehash : Bytes) : Option (List Clvm) := do
  let spend ← spendSlot M.hash K.handleSlot1stCurryHash spentDataTreehash
  let create ← createSlot M.hash K.handleSlot1stCurryHash createdDataTreehash
  return [spend, create, .ofList [.atom [62], .tagged 'o' spentDataTreehash]]

/-- `oracle.clsp`. -/
def oracle (M : Machine) (K : ConstantTrees) (truth solution : Clvm) :
    Option (Clvm × List Clvm) := do
  let (counter, slotValueRest) ← solution.uncons
  -- `(sha256tree slot_value)`, which is not a parameter of the action
  let spent ← M.hash.treeHash (.atom slotValueName)
  let next ← counter.add (.atom [1])
  let created ← M.hash.treeHash (.pair next slotValueRest)
  let conditions ← oracleConditions M K spent created
  return (truth, conditions)

/-! ## What an oracle is for -/

/-- Among some conditions there is one that spends the slot of the value, and one
puzzle announcement, of the hash of the value. -/
def Reads (M : Machine) (K : ConstantTrees) (value : Clvm) (conditions : List Clvm) : Prop :=
  ∃ d spend, M.hash.treeHash value = some d ∧
    Rue.spendSlot M.hash K.handleSlot1stCurryHash d = some spend ∧
    spend.toClvm ∈ conditions ∧
    ∀ message, Condition.toClvm (.createPuzzleAnnouncement message) ∈ conditions ↔
      message = .tagged 'o' d

/-- The actions agree on an input: the same outcome, and both read the slot of the value
that is their solution. -/
structure OracleAgrees (M : Machine) (K : ConstantTrees) (truth value : Clvm) : Prop where
  outcome_eq : (oracle M K truth value).map outcome
    = ((Rue.Xchandles.oracle M K truth value).map asTrees).map outcome
  clsp_reads : ∀ out, oracle M K truth value = some out → Reads M K value out.2
  rue_reads : ∀ out, Rue.Xchandles.oracle M K truth value = some out →
    Reads M K value (asTrees out).2

section

variable {M : Machine} {K : ConstantTrees}

/-- **Two values that are announced alike are one.** -/
theorem Reads.value_eq (hH : M.hash.CollisionFree) {v v' message : Clvm} {cs cs' : List Clvm}
    (h : Reads M K v cs) (h' : Reads M K v' cs')
    (hm : Condition.toClvm (.createPuzzleAnnouncement message) ∈ cs)
    (hm' : Condition.toClvm (.createPuzzleAnnouncement message) ∈ cs') : v = v' := by
  obtain ⟨d, _, hd, -, -, hannounced⟩ := h
  obtain ⟨d', _, hd', -, -, hannounced'⟩ := h'
  have hmessage : Clvm.tagged 'o' d = .tagged 'o' d' :=
    ((hannounced message).1 hm).symm.trans ((hannounced' message).1 hm')
  have hsame : d = d' := List.tail_eq_of_cons_eq (Clvm.atom.inj hmessage)
  rw [← hsame] at hd'
  exact HashOracle.treeHash_inj hH hd hd'

/-- What either action computes: the slot that it spends and the one that it creates. -/
structure OracleRun (M : Machine) (K : ConstantTrees) (spentValue createdValue : Clvm) where
  spentHash : Bytes
  createdHash : Bytes
  spend : Bytes
  create : Bytes
  spentHash_eq : M.hash.treeHash spentValue = some spentHash
  createdHash_eq : M.hash.treeHash createdValue = some createdHash
  spend_eq : Rue.getSlotPuzzleHash M.hash K.handleSlot1stCurryHash spentHash = some spend
  create_eq : Rue.getSlotPuzzleHash M.hash K.handleSlot1stCurryHash createdHash = some create

namespace OracleRun

variable {spentValue createdValue : Clvm}

/-- The conditions of the action. -/
def conditions (r : OracleRun M K spentValue createdValue) : List Condition :=
  [.sendMessage puzzlePuzzle .nil [.atom r.spend],
    .createCoin (.atom r.create) .nil [K.handleSlot1stCurryHash],
    .createPuzzleAnnouncement (.tagged 'o' r.spentHash)]

/-- Only the last condition is an announcement. -/
theorem announces (r : OracleRun M K spentValue createdValue) (message : Clvm) :
    Condition.toClvm (.createPuzzleAnnouncement message) ∈ r.conditions.map Condition.toClvm ↔
      message = .tagged 'o' r.spentHash := by
  simp [conditions, Condition.toClvm, Clvm.ofList]

/-- The action reads the value that it hashes. -/
theorem reads (r : OracleRun M K spentValue createdValue) :
    Reads M K spentValue (r.conditions.map Condition.toClvm) := by
  refine ⟨r.spentHash, _, r.spentHash_eq, bind_intro r.spend_eq rfl, ?_, r.announces⟩
  exact List.mem_map_of_mem List.mem_cons_self

/-- A value may be replaced by another one with the same hash. -/
def ofHashEq {other : Clvm} (r : OracleRun M K spentValue createdValue)
    (h : M.hash.treeHash spentValue = M.hash.treeHash other) :
    OracleRun M K other createdValue where
  spentHash := r.spentHash
  createdHash := r.createdHash
  spend := r.spend
  create := r.create
  spentHash_eq := h.symm.trans r.spentHash_eq
  createdHash_eq := r.createdHash_eq
  spend_eq := r.spend_eq
  create_eq := r.create_eq

end OracleRun

/-- The value of the slot that an oracle creates. -/
def nextValue (counter : Bytes) (rest : Clvm) : Clvm :=
  .pair (.ofInt (intFromBytes counter + 1)) rest

theorem rue_oracle_eq_some {truth value : Clvm} {out : Clvm × List Condition} :
    Rue.Xchandles.oracle M K truth value = some out ↔
      ∃ counter rest, value = .pair (.atom counter) rest ∧
        ∃ r : OracleRun M K value (nextValue counter rest), out = (truth, r.conditions) := by
  constructor
  · intro h
    obtain ⟨⟨counter, rest⟩, hvalue, h⟩ := bind_elim h
    obtain ⟨d, hd, h⟩ := bind_elim h
    obtain ⟨spend, hspend, h⟩ := bind_elim h
    obtain ⟨next, hnext, h⟩ := bind_elim h
    obtain ⟨create, hcreate, h⟩ := bind_elim h
    obtain rfl := Clvm.uncons_eq_some.1 hvalue
    obtain ⟨c, rfl, rfl⟩ := Clvm.increment_eq_some.1 hnext
    obtain ⟨d', hd', hspend'⟩ := bind_elim hspend
    obtain ⟨e, he, hcreate'⟩ := bind_elim hcreate
    obtain rfl : d = d' := Option.some.inj (hd.symm.trans hd')
    obtain ⟨spent, hspent, hs⟩ := bind_elim hspend'
    obtain ⟨created, hcreated, hc⟩ := bind_elim hcreate'
    cases hs
    cases hc
    exact ⟨c, rest, rfl, ⟨d, e, spent, created, hd, he, hspent, hcreated⟩, (Option.some.inj h).symm⟩
  · rintro ⟨c, rest, rfl, r, rfl⟩
    refine bind_intro (Clvm.uncons_pair ..) ?_
    refine bind_intro r.spentHash_eq ?_
    refine bind_intro (bind_intro r.spentHash_eq (bind_intro r.spend_eq rfl)) ?_
    refine bind_intro (Clvm.increment_atom _) ?_
    exact bind_intro (bind_intro r.createdHash_eq (bind_intro r.create_eq rfl)) rfl

theorem oracle_eq_some (hH : CurryConstants M.hash) {truth value : Clvm}
    {out : Clvm × List Clvm} :
    oracle M K truth value = some out ↔
      ∃ counter rest, value = .pair (.atom counter) rest ∧
        ∃ r : OracleRun M K (.atom slotValueName) (nextValue counter rest),
          out = asTrees (truth, r.conditions) := by
  unfold oracle oracleConditions spendSlot createSlot
  simp only [slotPuzzleHash_eq hH]
  constructor
  · intro h
    obtain ⟨⟨counter, rest⟩, hvalue, h⟩ := bind_elim h
    obtain ⟨d, hd, h⟩ := bind_elim h
    obtain ⟨next, hnext, h⟩ := bind_elim h
    obtain ⟨e, he, h⟩ := bind_elim h
    obtain ⟨conditions, hconditions, h⟩ := bind_elim h
    obtain ⟨spend, hspend, hconditions⟩ := bind_elim hconditions
    obtain ⟨create, hcreate, hconditions⟩ := bind_elim hconditions
    obtain ⟨spent, hspent, hs⟩ := bind_elim hspend
    obtain ⟨created, hcreated, hc⟩ := bind_elim hcreate
    obtain rfl := Clvm.uncons_eq_some.1 hvalue
    obtain ⟨c, rfl, rfl⟩ := Clvm.increment_eq_some.1 hnext
    cases hs
    cases hc
    cases hconditions
    exact ⟨c, rest, rfl, ⟨d, e, spent, created, hd, he, hspent, hcreated⟩, (Option.some.inj h).symm⟩
  · rintro ⟨c, rest, rfl, r, rfl⟩
    refine bind_intro (Clvm.uncons_pair ..) ?_
    refine bind_intro r.spentHash_eq ?_
    refine bind_intro (Clvm.increment_atom _) ?_
    refine bind_intro r.createdHash_eq ?_
    exact bind_intro (bind_intro (bind_intro r.spend_eq rfl) (bind_intro (bind_intro r.create_eq rfl)
      rfl)) rfl

/-- **The Rue action reads the value that it is given.** -/
theorem rue_oracle_reads {truth value : Clvm} {out : Clvm × List Condition}
    (h : Rue.Xchandles.oracle M K truth value = some out) : Reads M K value (asTrees out).2 := by
  obtain ⟨_, _, -, r, rfl⟩ := rue_oracle_eq_some.1 h
  exact r.reads

/-- The Chialisp action reads its unbound name, whatever value it is given. -/
theorem oracle_reads_slotValueName (hH : CurryConstants M.hash) {truth value : Clvm}
    {out : Clvm × List Clvm} (h : oracle M K truth value = some out) :
    Reads M K (.atom slotValueName) out.2 := by
  obtain ⟨_, _, -, r, rfl⟩ := (oracle_eq_some hH).1 h
  exact r.reads

end

/-! ## When they agree -/

/-- The Chialisp action raises: the first curry hash of the slots is a pair, or the
value is not a pair with an atom for its counter. -/
def OracleRaises (K : ConstantTrees) (value : Clvm) : Prop :=
  K.handleSlot1stCurryHash.bytes? = none ∨ ∀ counter rest, value ≠ .pair (.atom counter) rest

/-- The value has the parts that the two actions look at, and its hash is that of the
atom `slot_value`. -/
def SlotValueCollides (value : Clvm) : Prop :=
  (∃ counter rest, value = .pair counter rest) ∧
    HashOracle.sha256.treeHash value = HashOracle.sha256.treeHash (.atom slotValueName)

section

variable {eval : Clvm → Clvm → Option Clvm} {K : ConstantTrees} {truth value : Clvm}

/-- SHA-256 hashes every slot. -/
theorem exists_slotPuzzleHash (fc d : Bytes) :
    ∃ ph, Rue.getSlotPuzzleHash .sha256 (.atom fc) d = some ph := by
  obtain ⟨v, hv⟩ := HashOracle.sha256_total.treeHashAtom d
  obtain ⟨ph, hph⟩ := HashOracle.sha256_total.curryTreeHash fc [v]
  exact ⟨ph, bind_intro hv hph⟩

/-- Where nothing raises, an action computes something. -/
theorem exists_oracleRun {fc : Bytes} (hfc : K.handleSlot1stCurryHash = .atom fc) (s c : Clvm) :
    Nonempty (OracleRun ⟨.sha256, eval⟩ K s c) := by
  obtain ⟨d, hd⟩ := HashOracle.sha256_total.treeHash s
  obtain ⟨e, he⟩ := HashOracle.sha256_total.treeHash c
  obtain ⟨spend, hspend⟩ := exists_slotPuzzleHash fc d
  obtain ⟨create, hcreate⟩ := exists_slotPuzzleHash fc e
  rw [← hfc] at hspend hcreate
  exact ⟨⟨d, e, spend, create, hd, he, hspend, hcreate⟩⟩

theorem OracleRun.bytes?_ne_none {M : Machine} {s c : Clvm} (r : OracleRun M K s c) :
    K.handleSlot1stCurryHash.bytes? ≠ none := by
  obtain ⟨v, -, hcurry⟩ := bind_elim r.spend_eq
  obtain ⟨_, -, he⟩ := HashOracle.curryTreeHash_eq_some.1 hcurry
  obtain ⟨_, _, _, _, _, _, -, -, -, hquoted, -⟩ := HashOracle.hashExpression_eq_some.1 he
  obtain ⟨_, fc, -, hfc, -⟩ := HashOracle.treeHashPair_eq_some.1 hquoted
  rw [hfc]
  exact Option.some_ne_none fc

/-- Where the Chialisp action raises, the Rue action does. -/
theorem agrees_of_raises (h : OracleRaises K value) :
    OracleAgrees ⟨.sha256, eval⟩ K truth value := by
  have hclsp : ∀ out, oracle ⟨.sha256, eval⟩ K truth value ≠ some out := by
    intro out hout
    obtain ⟨counter, rest, hvalue, r, -⟩ := (oracle_eq_some sha256_curryConstants).1 hout
    rcases h with h | h
    · exact r.bytes?_ne_none h
    · exact h counter rest hvalue
  have hrue : ∀ out, Rue.Xchandles.oracle ⟨.sha256, eval⟩ K truth value ≠ some out := by
    intro out hout
    obtain ⟨counter, rest, hvalue, r, -⟩ := rue_oracle_eq_some.1 hout
    rcases h with h | h
    · exact r.bytes?_ne_none h
    · exact h counter rest hvalue
  refine ⟨?_, fun out hout => absurd hout (hclsp out), fun out hout => absurd hout (hrue out)⟩
  rw [Option.eq_none_iff_forall_ne_some.2 hclsp, Option.eq_none_iff_forall_ne_some.2 hrue]
  rfl

/-- The two actions compute the same of a value whose hash is that of the unbound name. -/
theorem agrees_of_collides (h : SlotValueCollides value) :
    OracleAgrees ⟨.sha256, eval⟩ K truth value := by
  obtain ⟨⟨counter, rest, rfl⟩, hhash⟩ := h
  have hsame : oracle ⟨.sha256, eval⟩ K truth (.pair counter rest)
      = (Rue.Xchandles.oracle ⟨.sha256, eval⟩ K truth (.pair counter rest)).map asTrees := by
    ext out
    rw [oracle_eq_some sha256_curryConstants, Option.map_eq_some_iff]
    constructor
    · rintro ⟨c, rest', hvalue, r, rfl⟩
      obtain ⟨rfl, rfl⟩ := Clvm.pair.inj hvalue
      exact ⟨_, rue_oracle_eq_some.2 ⟨c, rest, rfl, r.ofHashEq hhash.symm, rfl⟩, rfl⟩
    · rintro ⟨_, hrue, rfl⟩
      obtain ⟨c, rest', hvalue, r, rfl⟩ := rue_oracle_eq_some.1 hrue
      obtain ⟨rfl, rfl⟩ := Clvm.pair.inj hvalue
      exact ⟨c, rest, rfl, r.ofHashEq hhash, rfl⟩
  refine ⟨by rw [hsame], fun out hout => ?_, fun out => rue_oracle_reads⟩
  rw [hsame] at hout
  obtain ⟨out, hrue, rfl⟩ := Option.map_eq_some_iff.1 hout
  exact rue_oracle_reads hrue

/-- Where the Chialisp action does not raise, agreement takes a collision. -/
theorem collides_of_agrees (h : OracleAgrees ⟨.sha256, eval⟩ K truth value)
    (hraises : ¬ OracleRaises K value) : SlotValueCollides value := by
  obtain ⟨hfc, hvalue⟩ := not_or.1 hraises
  simp only [not_forall, not_not] at hvalue
  obtain ⟨counter, rest, rfl⟩ := hvalue
  obtain ⟨fc, hfc⟩ := Option.ne_none_iff_exists'.1 hfc
  have hrun : Nonempty (OracleRun ⟨.sha256, eval⟩ K (.atom slotValueName)
      (nextValue counter rest)) := exists_oracleRun (Clvm.bytes?_eq_some.1 hfc) _ _
  obtain ⟨r⟩ := hrun
  have hclsp : oracle ⟨.sha256, eval⟩ K truth (.pair (.atom counter) rest)
      = some (asTrees (truth, r.conditions)) :=
    (oracle_eq_some sha256_curryConstants).2 ⟨counter, rest, rfl, r, rfl⟩
  -- what is announced is the hash of the value and that of the unbound name
  obtain ⟨d, _, hd, -, -, hannounced⟩ := h.clsp_reads _ hclsp
  have hmessage : Clvm.tagged 'o' r.spentHash = .tagged 'o' d :=
    (hannounced _).1 ((r.announces _).2 rfl)
  have hsame : r.spentHash = d := List.tail_eq_of_cons_eq (Clvm.atom.inj hmessage)
  rw [← hsame] at hd
  exact ⟨⟨_, rest, rfl⟩, hd.trans r.spentHash_eq.symm⟩

end

/-- **The two actions agree if and only if** the Chialisp action raises, or the value it
is given has the SHA-256 tree hash of the atom `slot_value`. -/
theorem oracle_agrees_iff (eval : Clvm → Clvm → Option Clvm) (K : ConstantTrees)
    (truth value : Clvm) :
    OracleAgrees ⟨.sha256, eval⟩ K truth value ↔ OracleRaises K value ∨ SlotValueCollides value := by
  constructor
  · intro h
    by_cases hraises : OracleRaises K value
    · exact Or.inl hraises
    · exact Or.inr (collides_of_agrees h hraises)
  · rintro (h | h)
    · exact agrees_of_raises h
    · exact agrees_of_collides h

/-! ## A slot whose value is asked for -/

namespace OracleExample

open ExpireExample (bytes32)

/-- The slot of a handle between its neighbours. -/
def value : Clvm :=
  .pair .nil (.pair (.pair (.atom (bytes32 9)) (.pair (.atom (bytes32 11)) (.atom (bytes32 12))))
    (.pair (.ofInt 1000) (.pair (.atom (bytes32 13)) (.atom (bytes32 14)))))

theorem not_raises : ¬ OracleRaises ExpireExample.constants value := by
  rintro (h | h)
  · cases h
  · exact h _ _ rfl

theorem not_collides : ¬ SlotValueCollides value := by
  have hhash : HashOracle.sha256.treeHash value
      ≠ HashOracle.sha256.treeHash (.atom slotValueName) := by decide +kernel
  exact fun h => hhash h.2

end OracleExample

/-- Of a registered handle the Rue action announces the slot, and the Chialisp action
the letters `slot_value`. -/
theorem oracle_disagrees :
    ¬ OracleAgrees ⟨.sha256, fun _ _ => none⟩ ExpireExample.constants .nil OracleExample.value :=
  fun h => OracleExample.not_collides (collides_of_agrees h OracleExample.not_raises)

end SlotMachine.Chialisp
