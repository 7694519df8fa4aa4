import SlotMachine.Rue.Library
import SlotMachine.Singleton.Finalizer

/-!
# The finalizers on arbitrary trees

* `Finalizer.main` — the default finalizer, with constants that are trees; on
  hashes it is that of the registries.
* `ReserveFinalizer.main` — `reserve_finalizer.rue`, which also spends a reserve
  coin.  An action addresses a condition to it by putting `-42` in front.
* `parseConditions_ofList` — **proper lists are taken apart in order**, into the
  conditions of the singleton and those of the reserve, each list reversed.
-/

namespace SlotMachine.Rue

namespace Finalizer

/-- What is curried into the default finalizer. -/
structure Curried where
  actionLayerModHash : Clvm
  hint : Clvm
  selfHash : Clvm

variable (H : HashOracle)

/-- The puzzle hash of a finalizer, from that of the finalizer before its last argument. -/
def puzzleHash (selfHash : Clvm) : Option Bytes := do
  let selfHashHash ← H.treeHashAtom selfHash
  H.curryTreeHash selfHash [.atom selfHashHash]

/-- The recreation of the action layer with a new state. -/
def recreation (actionLayerModHash hint selfHash merkleRoot actualState : Clvm) : Option Clvm := do
  let finalizerHash ← puzzleHash H selfHash
  let rootHash ← H.treeHashAtom merkleRoot
  let stateHash ← H.treeHash actualState
  let inner ← H.curryTreeHash actionLayerModHash
    [.atom finalizerHash, .atom rootHash, .atom stateHash]
  return .ofList [.atom [51], .atom inner, .atom [1], .ofList [hint]]

/-- `main` of `finalizer.rue`, on `(Truth last_action_output . my_solution)`. -/
def main (c : Curried) (solution : Clvm) : Option Clvm := do
  let (truth, outputAndSolution) ← solution.uncons
  let (lastActionOutput, _) ← outputAndSolution.uncons
  let merkleRoot ← truth.first
  let (stateTruth, lists) ← lastActionOutput.uncons
  let actualState ← stateTruth.rest
  let recreate ← recreation H c.actionLayerModHash c.hint c.selfHash merkleRoot actualState
  let conditions ← SlotMachine.Finalizer.flattenList lists
  return .pair recreate conditions

/-- On hashes the puzzle is that of the registries. -/
theorem main_ofCurried (c : SlotMachine.Finalizer.Curried) (solution : Clvm) :
    main H ⟨.atom c.actionLayerModHash, c.hint, .atom c.selfHash⟩ solution
      = SlotMachine.Finalizer.main H c solution := by
  unfold main SlotMachine.Finalizer.main recreation SlotMachine.Finalizer.layerPuzzleHash
  simp only [Option.bind_eq_bind, Option.bind_assoc]
  rfl

end Finalizer

namespace ReserveFinalizer

/-- What is curried into the reserve finalizer. -/
structure Curried where
  actionLayerModHash : Clvm
  reserveFullPuzzleHash : Clvm
  reserveInnerPuzzleHash : Clvm
  reserveAmountFromStateProgram : Clvm
  hint : Clvm
  selfHash : Clvm

/-- The opcode `-42`. -/
def reserveOpcode : Clvm := .ofInt (-42)

/-- The conditions of one list, and then what the other lists add to both results. -/
def parseFirst (others : Clvm → Clvm → Option (Clvm × Clvm)) : Clvm → Clvm → Clvm →
    Option (Clvm × Clvm)
  | .atom [], conditions, reserve => others conditions reserve
  | .atom (_ :: _), _, _ => none
  | .pair x xs, conditions, reserve => do
      let (opcode, condition) ← x.uncons
      let extracted ← opcode.eq reserveOpcode
      if extracted then parseFirst others xs conditions (.pair condition reserve)
      else parseFirst others xs (.pair x conditions) reserve

/-- `parse_conditions`. -/
def parseConditions : Clvm → Clvm → Clvm → Option (Clvm × Clvm)
  | .atom _, _, _ => none
  | .pair firstThing theRest, conditions, reserve =>
      parseFirst (fun cs rs => if theRest.truthy then parseConditions theRest cs rs
        else some (cs, rs)) firstThing conditions reserve

/-- `main` of `reserve_finalizer.rue`. -/
def main (M : Machine) (c : Curried) (solution : Clvm) : Option Clvm := do
  let (truth, outputAndParent) ← solution.uncons
  let (lastActionOutput, reserveParentId) ← outputAndParent.uncons
  let (merkleRoot, initialState) ← truth.uncons
  let (stateTruth, lists) ← lastActionOutput.uncons
  let actualState ← stateTruth.rest
  let (base, reserve) ← parseConditions lists .nil .nil
  let amount ← M.eval c.reserveAmountFromStateProgram actualState
  let recreateReserve := .ofList [.atom [51], c.reserveInnerPuzzleHash, amount,
    .ofList [c.reserveInnerPuzzleHash]]
  let message ← M.hash.treeHash (.pair (.atom [1]) (.pair recreateReserve reserve))
  let reserves ← M.eval c.reserveAmountFromStateProgram initialState
  let coin ← M.hash.coinid reserveParentId c.reserveFullPuzzleHash reserves
  let recreate ← Finalizer.recreation M.hash c.actionLayerModHash c.hint c.selfHash merkleRoot
    actualState
  return .pair recreate
    (.pair (.ofList [.atom [66], .atom [23], .atom message, .atom coin]) base)

/-! ## What the reserve is told -/

/-- The step of the source's recursion. -/
theorem parseConditions_pair_pair (x xs rest conditions reserve : Clvm) :
    parseConditions (.pair (.pair x xs) rest) conditions reserve = (do
      let (opcode, condition) ← x.uncons
      let extracted ← opcode.eq reserveOpcode
      if extracted then parseConditions (.pair xs rest) conditions (.pair condition reserve)
      else parseConditions (.pair xs rest) (.pair x conditions) reserve) := rfl

/-- A condition with an opcode. -/
structure Coded where
  opcode : Bytes
  operands : Clvm

def Coded.toClvm (c : Coded) : Clvm := .pair (.atom c.opcode) c.operands

/-- The condition is one of the reserve. -/
def Coded.toReserve (c : Coded) : Bool := decide (c.opcode = intToBytes (-42))

/-- The conditions of the singleton, the last one first. -/
def own (cs : List Coded) : List Clvm := ((cs.filter fun c => !c.toReserve).map Coded.toClvm).reverse

/-- The conditions of the reserve without their opcodes, the last one first. -/
def extracted (cs : List Coded) : List Clvm := ((cs.filter Coded.toReserve).map Coded.operands).reverse

theorem own_append (cs ds : List Coded) : own (cs ++ ds) = own ds ++ own cs := by
  unfold own
  simp

theorem extracted_append (cs ds : List Coded) :
    extracted (cs ++ ds) = extracted ds ++ extracted cs := by
  unfold extracted
  simp

theorem parseFirst_ofList (others : Clvm → Clvm → Option (Clvm × Clvm)) (cs : List Coded)
    (conditions reserve : List Clvm) :
    parseFirst others (.ofList (cs.map Coded.toClvm)) (.ofList conditions) (.ofList reserve)
      = others (.ofList (own cs ++ conditions)) (.ofList (extracted cs ++ reserve)) := by
  induction cs generalizing conditions reserve with
  | nil => rfl
  | cons c cs ih =>
      have hcons : c :: cs = [c] ++ cs := rfl
      -- one step of the source's recursion
      have hstep : parseFirst others (.ofList ((c :: cs).map Coded.toClvm)) (.ofList conditions)
          (.ofList reserve) = if c.toReserve
            then parseFirst others (.ofList (cs.map Coded.toClvm)) (.ofList conditions)
              (.ofList (c.operands :: reserve))
            else parseFirst others (.ofList (cs.map Coded.toClvm))
              (.ofList (c.toClvm :: conditions)) (.ofList reserve) := rfl
      rw [hstep, hcons, own_append, extracted_append]
      by_cases hc : c.toReserve
      · have hown : own [c] = [] := by simp [own, hc]
        have hextracted : extracted [c] = [c.operands] := by simp [extracted, hc]
        rw [if_pos hc, ih, hown, hextracted]
        simp
      · have hown : own [c] = [c.toClvm] := by simp [own, hc]
        have hextracted : extracted [c] = [] := by simp [extracted, hc]
        rw [if_neg hc, ih, hown, hextracted]
        simp

/-- **Proper lists are taken apart in order**, if there is one at all. -/
theorem parseConditions_ofList (cs : List Coded) (css : List (List Coded))
    (conditions reserve : List Clvm) :
    parseConditions (.ofList ((cs :: css).map fun l => .ofList (l.map Coded.toClvm)))
        (.ofList conditions) (.ofList reserve)
      = some (.ofList (own (cs :: css).flatten ++ conditions),
          .ofList (extracted (cs :: css).flatten ++ reserve)) := by
  induction css generalizing cs conditions reserve with
  | nil =>
      rw [List.flatten_singleton]
      exact parseFirst_ofList _ cs conditions reserve
  | cons ds css ih =>
      rw [List.flatten_cons, own_append, extracted_append, List.append_assoc, List.append_assoc,
        ← ih ds]
      exact parseFirst_ofList _ cs conditions reserve

end ReserveFinalizer

end SlotMachine.Rue
