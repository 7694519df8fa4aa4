import SlotMachine.Rue.Singleton
import SlotMachine.Singleton.Conservation

/-!
# The reserve of a singleton

The reserve finalizer keeps a pool of funds next to the singleton: a coin that is spent
with every spend of the singleton, by a delegated puzzle that the singleton sends it.

* `ReserveFinalizer.main_eq_some` — **what the reserve finalizer returns**: the layer
  created anew, one message to the reserve coin, and the conditions without the opcode
  `-42`.
* `own_add_extracted` — every condition is in one of the two parts, exactly once.
* `P2DelegatedBySingleton.main` — the puzzle of the reserve coin; `main_eq_some` says what
  message it waits for.
-/

namespace SlotMachine

open Clvm

/-! ## The conditions are taken apart -/

namespace Rue.ReserveFinalizer

/-- What was taken apart had opcodes, and the other lists were taken apart as well. -/
theorem exists_coded_of_parseFirst {others : Clvm → Clvm → Option (Clvm × Clvm)} {xs : List Clvm}
    {conditions reserve : Clvm} {r : Clvm × Clvm}
    (h : parseFirst others (.ofList xs) conditions reserve = some r) :
    (∃ cs : List Coded, xs = cs.map Coded.toClvm) ∧ ∃ a b, others a b = some r := by
  induction xs generalizing conditions reserve with
  | nil => exact ⟨⟨[], rfl⟩, conditions, reserve, h⟩
  | cons x xs ih =>
    obtain ⟨⟨opcode, operands⟩, hx, h⟩ := bind_elim h
    obtain ⟨toReserve, heq, h⟩ := bind_elim h
    obtain rfl := Clvm.uncons_eq_some.1 hx
    obtain ⟨code, _, rfl, -, -⟩ := Clvm.eq_eq_some.1 heq
    have hrest : (∃ cs : List Coded, xs = cs.map Coded.toClvm) ∧ ∃ a b, others a b = some r := by
      cases toReserve with
      | true => exact ih h
      | false => exact ih h
    obtain ⟨⟨cs, rfl⟩, hothers⟩ := hrest
    exact ⟨⟨⟨code, operands⟩ :: cs, rfl⟩, hothers⟩

/-- **Lists that are taken apart hold conditions with opcodes**, and there is one. -/
theorem exists_coded_of_parseConditions {lists : List (List Clvm)} {conditions reserve : Clvm}
    {r : Clvm × Clvm}
    (h : parseConditions (.ofList (lists.map .ofList)) conditions reserve = some r) :
    ∃ cs css, lists = (cs :: css).map fun l : List Coded => l.map Coded.toClvm := by
  induction lists generalizing conditions reserve with
  | nil => cases h
  | cons xs lists ih =>
    obtain ⟨⟨cs, rfl⟩, a, b, hothers⟩ := exists_coded_of_parseFirst h
    cases lists with
    | nil => exact ⟨cs, [], rfl⟩
    | cons ys lists =>
      obtain ⟨ds, css, hcss⟩ := ih hothers
      exact ⟨cs, ds :: css, by rw [hcss]; rfl⟩

/-- Where all conditions have opcodes, each list is one of conditions with opcodes. -/
theorem exists_coded_lists {lists : List (List Clvm)} {cs : List Coded}
    (h : lists.flatten = cs.map Coded.toClvm) :
    ∃ css : List (List Coded), (lists = css.map fun l : List Coded => l.map Coded.toClvm) ∧
      css.flatten = cs := by
  induction lists generalizing cs with
  | nil => exact ⟨[], rfl, (List.map_eq_nil_iff.1 h.symm).symm⟩
  | cons xs lists ih =>
    rw [List.flatten_cons] at h
    obtain ⟨ds, es, rfl, hds, hes⟩ := List.map_eq_append_iff.1 h.symm
    obtain ⟨css, rfl, rfl⟩ := ih hes.symm
    exact ⟨ds :: css, by rw [← hds]; rfl, List.flatten_cons⟩

/-- Proper lists, from nothing. -/
theorem parseConditions_coded (cs : List Coded) (css : List (List Coded)) :
    parseConditions
        (.ofList (((cs :: css).map fun l : List Coded => l.map Coded.toClvm).map .ofList)) .nil .nil
      = some (.ofList (own (cs :: css).flatten), .ofList (extracted (cs :: css).flatten)) := by
  have h := parseConditions_ofList cs css [] []
  rw [List.append_nil, List.append_nil] at h
  rw [List.map_map]
  exact h

/-- **Every condition is in one of the two parts, exactly once**: those of the reserve
have lost their opcode. -/
theorem own_add_extracted (cs : List Coded) :
    (own cs : Multiset Clvm) + (extracted cs).map (Clvm.pair reserveOpcode)
      = (cs.map Coded.toClvm : List Clvm) := by
  have hopcode : ∀ c : Coded, c.toReserve = true → Clvm.pair reserveOpcode c.operands = c.toClvm := by
    intro c hc
    have hcode : c.opcode = intToBytes (-42) := of_decide_eq_true hc
    unfold Coded.toClvm
    rw [hcode]
    rfl
  induction cs with
  | nil => rfl
  | cons c cs ih =>
    have hcons : c :: cs = [c] ++ cs := rfl
    rw [hcons, own_append, extracted_append, List.map_append, List.map_append, ← Multiset.coe_add,
      ← Multiset.coe_add, ← Multiset.coe_add, ← ih]
    by_cases hc : c.toReserve = true
    · have hown : own [c] = [] := by simp [own, hc]
      have hextracted : extracted [c] = [c.operands] := by simp [extracted, hc]
      rw [hown, hextracted, List.map_singleton, List.map_singleton, hopcode c hc]
      simp only [Multiset.coe_nil, add_zero]
      abel
    · have hown : own [c] = [c.toClvm] := by simp [own, hc]
      have hextracted : extracted [c] = [] := by simp [extracted, hc]
      rw [hown, hextracted, List.map_nil, List.map_singleton]
      simp only [Multiset.coe_nil, add_zero]
      abel

/-! ## What the finalizer returns -/

/-- The programs whose hashes are curried into the reserve finalizer, and the rest of what
is curried in. -/
structure Programs extends SlotMachine.Finalizer.Programs where
  reserveFullPuzzleHash : Clvm
  reserveInnerPuzzleHash : Clvm
  reserveAmountFromStateProgram : Clvm

namespace Programs

variable (P : Programs)

/-- What is curried into the reserve finalizer. -/
def curried : Curried where
  actionLayerModHash := .atom (treeHash256 P.actionLayerMod)
  reserveFullPuzzleHash := P.reserveFullPuzzleHash
  reserveInnerPuzzleHash := P.reserveInnerPuzzleHash
  reserveAmountFromStateProgram := P.reserveAmountFromStateProgram
  hint := P.hint
  selfHash := .atom (treeHash256 P.finalizer1stCurry)

/-- `recreate_reserve`: the reserve with some amount. -/
def recreateReserve (amount : Clvm) : Clvm :=
  .ofList [.atom [51], P.reserveInnerPuzzleHash, amount, .ofList [P.reserveInnerPuzzleHash]]

/-- The delegated puzzle: `(q . (recreate_reserve . reserve_conditions))`. -/
def delegatedPuzzle (amount : Clvm) (reserveConditions : List Clvm) : Clvm :=
  quoted (.ofList (P.recreateReserve amount :: reserveConditions))

theorem recreation_curried (merkleRoot : Bytes) (state : Clvm) :
    Finalizer.recreation .sha256 P.curried.actionLayerModHash P.curried.hint P.curried.selfHash
        (.atom merkleRoot) state
      = some (P.recreation merkleRoot state) := by
  have hfinalizer : Finalizer.puzzleHash .sha256 P.curried.selfHash
      = some (treeHash256 P.finalizer) := P.puzzleHash_curried
  have hlayer := P.layerPuzzleHash_curried merkleRoot state
  obtain ⟨rootHash, hroot, h⟩ := bind_elim hlayer
  obtain ⟨stateHash, hstate, hcurry⟩ := bind_elim h
  exact bind_intro hfinalizer (bind_intro hroot (bind_intro hstate (bind_intro hcurry rfl)))

end Programs

/-- `(SEND_MESSAGE 23 message coin_id)`. -/
def sendToReserve (message coinId : Bytes) : Clvm :=
  .ofList [.atom [66], .atom [23], .atom message, .atom coinId]

section

variable {eval : Clvm → Clvm → Option Clvm}

/-- **What the reserve finalizer returns**, if it does not raise. -/
theorem main_eq_some (P : Programs) {merkleRoot : Bytes}
    {initialState ephemeral state reserveParentId out : Clvm} {lists : List (List Clvm)} :
    main ⟨.sha256, eval⟩ P.curried (.pair (.pair (.atom merkleRoot) initialState) (.pair
        (.pair (.pair ephemeral state) (.ofList (lists.map .ofList))) reserveParentId))
      = some out ↔
      lists ≠ [] ∧ ∃ (cs : List Coded) (amount reserves : Clvm) (coin : Bytes),
        lists.flatten = cs.map Coded.toClvm ∧
        eval P.reserveAmountFromStateProgram state = some amount ∧
        eval P.reserveAmountFromStateProgram initialState = some reserves ∧
        HashOracle.sha256.coinid reserveParentId P.reserveFullPuzzleHash reserves = some coin ∧
        out = .ofList (P.recreation merkleRoot state
          :: sendToReserve (treeHash256 (P.delegatedPuzzle amount (extracted cs))) coin
          :: own cs) := by
  constructor
  · intro h
    obtain ⟨_, hsolution, h⟩ := bind_elim h
    cases hsolution
    obtain ⟨_, houtput, h⟩ := bind_elim h
    cases houtput
    obtain ⟨_, htruth, h⟩ := bind_elim h
    cases htruth
    obtain ⟨_, hlast, h⟩ := bind_elim h
    cases hlast
    obtain ⟨_, hstate, h⟩ := bind_elim h
    cases hstate
    obtain ⟨⟨base, reserve⟩, hparsed, h⟩ := bind_elim h
    obtain ⟨amount, hamount, h⟩ := bind_elim h
    obtain ⟨message, hmessage, h⟩ := bind_elim h
    obtain ⟨reserves, hreserves, h⟩ := bind_elim h
    obtain ⟨coin, hcoin, h⟩ := bind_elim h
    obtain ⟨recreate, hrecreate, hout⟩ := bind_elim h
    obtain ⟨cs, css, rfl⟩ := exists_coded_of_parseConditions hparsed
    refine ⟨List.cons_ne_nil _ _, (cs :: css).flatten, amount, reserves, coin, ?_, hamount,
      hreserves, hcoin, ?_⟩
    · rw [List.map_flatten]
    · rw [parseConditions_coded] at hparsed
      obtain ⟨rfl, rfl⟩ := Prod.mk.inj (Option.some.inj hparsed)
      have hsent : HashOracle.sha256.treeHash (P.delegatedPuzzle amount
          (extracted (cs :: css).flatten)) = some message := hmessage
      rw [treeHash_sha256] at hsent
      rw [P.recreation_curried] at hrecreate
      rw [← Option.some.inj hout, ← Option.some.inj hrecreate, Option.some.inj hsent]
      rfl
  · rintro ⟨hne, cs, amount, reserves, coin, hlists, hamount, hreserves, hcoin, rfl⟩
    obtain ⟨css, rfl, rfl⟩ := exists_coded_lists hlists
    cases css with
    | nil => exact absurd rfl hne
    | cons ds dss =>
      refine bind_intro rfl (bind_intro rfl (bind_intro rfl (bind_intro rfl (bind_intro rfl ?_))))
      refine bind_intro (parseConditions_coded ds dss) (bind_intro hamount ?_)
      refine bind_intro (treeHash_sha256 _) (bind_intro hreserves (bind_intro hcoin ?_))
      exact bind_intro (P.recreation_curried merkleRoot state) rfl

/-- **The delegated puzzle returns** the recreation of the reserve and what it was given. -/
theorem run_delegatedPuzzle (P : Programs) (H : HashOracle)
    (other : Bytes → List Clvm → Option Clvm) (fuel : ℕ) (amount solution : Clvm)
    (reserveConditions : List Clvm) :
    Clvm.run H other (fuel + 1) (P.delegatedPuzzle amount reserveConditions) solution
      = some (.ofList (P.recreateReserve amount :: reserveConditions)) :=
  run_quote ..

end

end Rue.ReserveFinalizer

/-! ## The coin of the reserve -/

namespace P2DelegatedBySingleton

/-- What is curried into the puzzle. -/
structure Curried where
  singletonModHash : Clvm
  singletonStructHash : Clvm
  nonce : Clvm

/-- `(RECEIVE_MESSAGE 23 message singleton)`. -/
def receiveFromSingleton (message singleton : Bytes) : Clvm :=
  .ofList [.atom [67], .atom [23], .atom message, .atom singleton]

/-- `main` of `p2_delegated_by_singleton.rue`, on
`(singleton_inner_puzzle_hash delegated_puzzle . delegated_solution)`. -/
def main (M : Machine) (c : Curried) (solution : Clvm) : Option Clvm := do
  let (singletonInnerPuzzleHash, rest) ← solution.uncons
  let (delegatedPuzzle, delegatedSolution) ← rest.uncons
  let message ← M.hash.treeHash delegatedPuzzle
  let singleton ← M.hash.curryTreeHash c.singletonModHash
    [c.singletonStructHash, singletonInnerPuzzleHash]
  let conditions ← M.eval delegatedPuzzle delegatedSolution
  return .pair (receiveFromSingleton message singleton) conditions

variable {M : Machine} {c : Curried} {inner delegatedPuzzle delegatedSolution out : Clvm}

/-- **The puzzle waits for the hash of the delegated puzzle**, and runs it. -/
theorem main_eq_some :
    main M c (.pair inner (.pair delegatedPuzzle delegatedSolution)) = some out ↔
      ∃ message singleton conditions, M.hash.treeHash delegatedPuzzle = some message ∧
        M.hash.curryTreeHash c.singletonModHash [c.singletonStructHash, inner] = some singleton ∧
        M.eval delegatedPuzzle delegatedSolution = some conditions ∧
        out = .pair (receiveFromSingleton message singleton) conditions := by
  constructor
  · intro h
    obtain ⟨_, hsolution, h⟩ := bind_elim h
    cases hsolution
    obtain ⟨_, hrest, h⟩ := bind_elim h
    cases hrest
    obtain ⟨message, hmessage, h⟩ := bind_elim h
    obtain ⟨singleton, hsingleton, h⟩ := bind_elim h
    obtain ⟨conditions, hconditions, h⟩ := bind_elim h
    exact ⟨message, singleton, conditions, hmessage, hsingleton, hconditions,
      (Option.some.inj h).symm⟩
  · rintro ⟨message, singleton, conditions, hmessage, hsingleton, hconditions, rfl⟩
    exact bind_intro rfl (bind_intro rfl (bind_intro hmessage (bind_intro hsingleton
      (bind_intro hconditions rfl))))

end P2DelegatedBySingleton

namespace Rue.ReserveFinalizer

open P2DelegatedBySingleton (receiveFromSingleton)

/-- The reserve finalizer takes the conditions of all actions apart into those of the
singleton and, without the opcode `-42`, those of the reserve.  It returns the first with a
recreation of the layer and a message to the reserve coin, which holds what the initial
state says; the message is what the reserve coin waits for to run the puzzle that recreates
it, with what the final state says, and returns the second. -/
theorem reserve_finalizer_partition (eval : Clvm → Clvm → Option Clvm) (P : Programs)
    (merkleRoot : Bytes) (initialState ephemeral state reserveParentId : Clvm)
    (lists : List (List Clvm)) :
    (∀ out, main ⟨.sha256, eval⟩ P.curried (.pair (.pair (.atom merkleRoot) initialState) (.pair
        (.pair (.pair ephemeral state) (.ofList (lists.map .ofList))) reserveParentId))
      = some out ↔
      lists ≠ [] ∧ ∃ (cs : List Coded) (amount reserves : Clvm) (coin : Bytes),
        lists.flatten = cs.map Coded.toClvm ∧
        eval P.reserveAmountFromStateProgram state = some amount ∧
        eval P.reserveAmountFromStateProgram initialState = some reserves ∧
        HashOracle.sha256.coinid reserveParentId P.reserveFullPuzzleHash reserves = some coin ∧
        out = .ofList (P.recreation merkleRoot state
          :: sendToReserve (treeHash256 (P.delegatedPuzzle amount (extracted cs))) coin
          :: own cs)) ∧
    (∀ cs : List Coded, (own cs : Multiset Clvm) + (extracted cs).map (Clvm.pair reserveOpcode)
      = (cs.map Coded.toClvm : List Clvm)) ∧
    (∀ (amount solution : Clvm) (cs : List Coded) (H : HashOracle)
        (other : Bytes → List Clvm → Option Clvm) (fuel : ℕ),
      Clvm.run H other (fuel + 1) (P.delegatedPuzzle amount (extracted cs)) solution
        = some (.ofList (P.recreateReserve amount :: extracted cs))) ∧
    ∀ (c : P2DelegatedBySingleton.Curried) (inner delegatedPuzzle solution out : Clvm),
      P2DelegatedBySingleton.main ⟨.sha256, eval⟩ c (.pair inner (.pair delegatedPuzzle solution))
        = some out ↔
      ∃ singleton conditions,
        HashOracle.sha256.curryTreeHash c.singletonModHash [c.singletonStructHash, inner]
          = some singleton ∧
        eval delegatedPuzzle solution = some conditions ∧
        out = .pair (receiveFromSingleton (treeHash256 delegatedPuzzle) singleton) conditions := by
  refine ⟨fun out => main_eq_some P, own_add_extracted,
    fun amount solution cs H other fuel => run_delegatedPuzzle P H other fuel amount solution _, ?_⟩
  intro c inner delegatedPuzzle solution out
  rw [P2DelegatedBySingleton.main_eq_some]
  constructor
  · rintro ⟨message, singleton, conditions, hmessage, hsingleton, hconditions, rfl⟩
    rw [← Option.some.inj ((treeHash_sha256 delegatedPuzzle).symm.trans hmessage)]
    exact ⟨singleton, conditions, hsingleton, hconditions, rfl⟩
  · rintro ⟨singleton, conditions, hsingleton, hconditions, rfl⟩
    exact ⟨_, singleton, conditions, treeHash_sha256 delegatedPuzzle, hsingleton, hconditions, rfl⟩

end Rue.ReserveFinalizer

end SlotMachine
