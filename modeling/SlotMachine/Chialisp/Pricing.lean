import SlotMachine.Chialisp.Include
import SlotMachine.Puzzles.PremiumCurve
import SlotMachine.Rue.Pricing

/-!
# The Chialisp pricing puzzles

* `factorPricing`, `exponentialPremium` — the puzzles under `puzzles/default_puzzles`.
* `factorPricing_eq` — **the first is the Rue puzzle**.
* `scales` — every factor of the bits list is an integer, and there is a precision to
  divide by; `exponentialPremium_eq` says that **the second is the Rue puzzle then, and
  that the Rue puzzle raises otherwise**: it scales by a factor also where the bit of the
  fraction is not set.
* `premium_range` — the premium of both is in its range.
-/

namespace SlotMachine.Chialisp

/-! ## `factor_pricing` -/

/-- `get_price_factor`. -/
def getPriceFactor (length numberOfNumbers : ℤ) : Option ℤ := do
  let p : ℤ ←
    (if length > 2 then
      (if length > 4 then
        (if length = 5 then some 16
        else if length > 63 then none else some 2)
      else if length = 3 then some 128 else some 64)
    else none)
  -- the price is halved if the handle contains numbers
  return p.fdiv (if numberOfNumbers ≠ 0 then 2 else 1)

/-- `single_char_helper`, with the count of the remaining characters. -/
def singleCharHelper (ch : ℤ) (rest : Option ℤ) : Option ℤ :=
  if ch > 97 - 1 ∧ 122 + 1 > ch then rest
  else if ch > 48 - 1 ∧ 57 + 1 > ch then rest.map (1 + ·)
  else none

/-- `count_numbers_plus_validate`. -/
def countNumbersPlusValidate : Bytes → Option ℤ
  | [] => some 0
  | b :: handleRest => singleCharHelper (intFromBytes [b]) (countNumbersPlusValidate handleRest)

/-- `factor_pricing.clsp`. -/
def factorPricing (basePrice registrationPeriod solution : Clvm) : Option Clvm := do
  let (_, solution) ← solution.uncons
  let (_, solution) ← solution.uncons
  let (handle, numPeriods) ← solution.uncons
  let periods ← numPeriods.int?
  assertThat (decide (periods > 0))
  let base ← basePrice.int?
  let h ← handle.bytes?
  let numbers ← countNumbersPlusValidate h
  let factor ← getPriceFactor h.length numbers
  let period ← registrationPeriod.int?
  return .pair (.ofInt (periods * base * factor)) (.ofInt (periods * period))

theorem getPriceFactor_eq (length numberOfNumbers : ℤ) :
    getPriceFactor length numberOfNumbers = SlotMachine.getPriceFactor length numberOfNumbers := by
  unfold getPriceFactor SlotMachine.getPriceFactor
  by_cases h : numberOfNumbers = 0
  · rw [if_neg (not_not.2 h), if_pos h]
  · rw [if_pos h, if_neg h]

theorem countNumbersPlusValidate_eq (handle : Bytes) :
    countNumbersPlusValidate handle = countNumbersAndValidate handle := by
  induction handle with
  | nil => rfl
  | cons b handle ih =>
    unfold countNumbersPlusValidate countNumbersAndValidate singleCharHelper
    rw [ih]
    by_cases hletter : intFromBytes [b] > 97 - 1 ∧ intFromBytes [b] < 122 + 1
    · rw [if_pos hletter, if_pos hletter]
    rw [if_neg hletter, if_neg hletter]
    by_cases hdigit : intFromBytes [b] > 48 - 1 ∧ intFromBytes [b] < 57 + 1
    · rw [if_pos hdigit, decide_eq_true hdigit]
      cases countNumbersAndValidate handle with
      | none => rfl
      | some n => exact congrArg some (add_comm 1 n)
    · rw [if_neg hdigit, decide_eq_false hdigit]
      rfl

/-- **The two pricing puzzles are one.** -/
theorem factorPricing_eq (basePrice registrationPeriod solution : Clvm) :
    factorPricing basePrice registrationPeriod solution
      = Rue.factorPricing basePrice registrationPeriod solution := by
  unfold factorPricing Rue.factorPricing
  simp only [countNumbersPlusValidate_eq, getPriceFactor_eq]

/-! ## `exponential_premium` -/

open Rue (PremiumTrees)

/-- The premium for one more bit of the fraction, if it is set. -/
def applyBit (precision bit : Clvm) (acc fractionPart premium : ℤ) : Option ℤ :=
  if Int.land fractionPart acc ≠ 0 then do
    let b ← bit.int?
    let p ← precision.int?
    let (scaled, _) ← Clvm.divide (premium * b) p
    return scaled
  else some premium

/-- `add_fractional_part`. -/
def addFractionalPart (precision : Clvm) : Clvm → (acc fractionPart premium : ℤ) → Option ℤ
  | .atom [], _, _, premium => some premium
  -- an atom has no rest
  | .atom (_ :: _), _, _, _ => none
  | .pair bit bitsList, acc, fractionPart, premium => do
      let premium ← applyBit precision bit acc fractionPart premium
      addFractionalPart precision bitsList (acc * 2) fractionPart premium

/-- The premium, by the time that has passed since the expiration. -/
def premiumAt (c : PremiumTrees) (elapsed : ℤ) : Option ℤ := do
  let halvingPeriod ← c.halvingPeriod.int?
  let startPremium ← c.startPremium.int?
  let endValue ← c.endValue.int?
  let (periods, rest) ← Clvm.divide elapsed halvingPeriod
  let (fractionPart, _) ← Clvm.divide (65536 * rest) halvingPeriod
  let halvings ← (Clvm.shift 1 periods).bind Clvm.int?
  let (premium, _) ← Clvm.divide startPremium halvings
  let premium ← addFractionalPart c.precision c.bitsList 1 fractionPart premium
  return correctPremium premium endValue

/-- `exponential_premium.clsp`. -/
def exponentialPremium (base : Clvm → Option Clvm) (c : PremiumTrees) (solution : Clvm) :
    Option Clvm := do
  let (buyTime, rest) ← solution.uncons
  let (currentExpiration, _) ← rest.uncons
  let output ← base solution
  let (priceWithoutPremium, registeredTime) ← output.uncons
  let price ← priceWithoutPremium.int?
  let t ← buyTime.int?
  let e ← currentExpiration.int?
  let delta ← premiumAt c (t - e)
  return .pair (.ofInt (price + delta)) registeredTime

/-- There is a precision to divide by, if there is a factor, and every factor is an
integer. -/
def scales (precision : Clvm) : Clvm → Bool
  | .atom _ => true
  | .pair bit bitsList =>
      bit.int?.isSome && precision.int?.any (· != 0) && scales precision bitsList

/-- The Rue puzzle scales by every factor, and the Chialisp puzzle by those it needs. -/
theorem rue_applyBit_eq (precision bit : Clvm) (acc fractionPart premium : ℤ) :
    Rue.applyBit precision bit acc fractionPart premium
      = if bit.int?.isSome && precision.int?.any (· != 0)
          then applyBit precision bit acc fractionPart premium else none := by
  unfold Rue.applyBit applyBit
  cases bit.int? with
  | none => rfl
  | some b =>
    cases precision.int? with
    | none => rfl
    | some p =>
      unfold Clvm.divide
      by_cases hp : p = 0
      · simp [hp]
      · by_cases hset : Int.land fractionPart acc ≠ 0
        · simp [hp, hset]
        · simp [hp, hset]

theorem rue_addFractionalPart_eq (precision bitsList : Clvm) (acc fractionPart premium : ℤ) :
    Rue.addFractionalPart precision bitsList acc fractionPart premium
      = if scales precision bitsList
          then addFractionalPart precision bitsList acc fractionPart premium else none := by
  induction bitsList generalizing acc premium with
  | atom b => cases b <;> rfl
  | pair bit bitsList _ ih =>
    unfold Rue.addFractionalPart addFractionalPart scales
    rw [rue_applyBit_eq]
    cases hbit : bit.int?.isSome && precision.int?.any (· != 0) with
    | false => simp
    | true =>
      simp only [ih, if_true, Bool.true_and]
      cases scales precision bitsList with
      | true => rfl
      | false => exact bind_none

theorem rue_premiumAt_eq (c : PremiumTrees) (elapsed : ℤ) :
    Rue.premiumAt c elapsed
      = if scales c.precision c.bitsList then premiumAt c elapsed else none := by
  unfold Rue.premiumAt premiumAt
  simp only [rue_addFractionalPart_eq]
  cases scales c.precision c.bitsList with
  | true => rfl
  | false => simp only [Bool.false_eq_true, if_false, none_bind, bind_none]

/-- **The Rue puzzle is the Chialisp puzzle, where every factor can be scaled by.** -/
theorem exponentialPremium_eq (base : Clvm → Option Clvm) (c : PremiumTrees) (solution : Clvm) :
    Rue.exponentialPremium base c solution
      = if scales c.precision c.bitsList then exponentialPremium base c solution else none := by
  unfold Rue.exponentialPremium exponentialPremium
  simp only [rue_premiumAt_eq]
  cases scales c.precision c.bitsList with
  | false => simp only [Bool.false_eq_true, if_false, none_bind, bind_none]
  | true =>
    simp only [if_true]
    refine congrArg _ (funext fun buyTime => congrArg _ (funext fun currentExpiration => ?_))
    refine congrArg _ (funext fun output => congrArg _ (funext fun priced => ?_))
    -- the Rue puzzle reads the price at the end
    cases priced.1.int? with
    | none => simp only [none_bind, bind_none]
    | some price => simp only [some_bind]

/-- Both pricing puzzles are the same in Rue and in Chialisp, except that the Rue premium
raises if there is a factor of the bits list that it cannot scale by. -/
theorem default_pricing_agree :
    (∀ basePrice registrationPeriod solution,
      Rue.factorPricing basePrice registrationPeriod solution
        = factorPricing basePrice registrationPeriod solution) ∧
    ∀ base c solution, Rue.exponentialPremium base c solution
      = if scales c.precision c.bitsList then exponentialPremium base c solution else none :=
  ⟨fun basePrice registrationPeriod solution =>
    (factorPricing_eq basePrice registrationPeriod solution).symm, exponentialPremium_eq⟩

/-- At the moment of the expiration no bit of the fraction is set, and the Chialisp puzzle
does without the precision. -/
theorem default_pricing_disagrees :
    let c : PremiumTrees := ⟨.ofInt 86400, .ofInt 1000, .nil, .nil, .ofList [.ofInt 5]⟩
    let base : Clvm → Option Clvm := fun _ => some (.pair (.ofInt 10) (.ofInt 366))
    let solution : Clvm := .pair (.ofInt 2000) (.pair (.ofInt 2000) .nil)
    exponentialPremium base c solution = some (.pair (.ofInt 1010) (.ofInt 366)) ∧
      Rue.exponentialPremium base c solution = none := by
  decide +kernel

/-! ## On integers -/

theorem scales_ofList {precision : ℤ} (h : precision ≠ 0) (bitsList : List ℤ) :
    scales (.ofInt precision) (.ofList (bitsList.map .ofInt)) = true := by
  induction bitsList with
  | nil => rfl
  | cons bit bitsList ih =>
    show (_ && _ && scales _ (.ofList (bitsList.map .ofInt))) = true
    rw [ih, Clvm.int?_ofInt, Clvm.int?_ofInt]
    simpa using h

/-- With a precision the Chialisp puzzle charges what the Rue puzzle does. -/
theorem premiumAt_ofConstants {c : PremiumConstants} (h : c.precision ≠ 0) (elapsed : ℤ) :
    premiumAt (.ofConstants c) elapsed = SlotMachine.premiumAt c elapsed := by
  have hscales : scales (PremiumTrees.ofConstants c).precision (PremiumTrees.ofConstants c).bitsList
      = true := scales_ofList h c.bitsList
  rw [← Rue.premiumAt_ofConstants, rue_premiumAt_eq, if_pos hscales]

/-- The premium of both puzzles is computed from the expiration on, lies between zero and
the start value halved for every period, and is zero once this is down to the end value. -/
theorem premium_range {c : PremiumConstants} (hc : c.Positive) {buyTime currentExpiration : ℤ}
    (hshift : |buyTime - currentExpiration| / c.halvingPeriod < 65535) :
    PremiumInRange c buyTime currentExpiration
        (SlotMachine.premiumAt c (buyTime - currentExpiration)) ∧
      PremiumInRange c buyTime currentExpiration
        (premiumAt (.ofConstants c) (buyTime - currentExpiration)) := by
  have hperiods : (buyTime - currentExpiration) / c.halvingPeriod ≤ 65535 :=
    (Int.ediv_le_ediv hc.halvingPeriod (le_abs_self _)).trans hshift.le
  rw [premiumAt_ofConstants hc.precision.ne']
  exact ⟨premiumInRange hc hperiods, premiumInRange hc hperiods⟩

/-- A premium that is halved every day, a quarter of a day after the expiration. -/
theorem premium_range_quarter :
    let c : PremiumConstants := ⟨86400, 1000, 3, 100, [70, 50]⟩
    c.Positive ∧ |(21600 : ℤ) - 0| / 86400 < 65535 ∧
      PremiumInRange c 21600 0 (SlotMachine.premiumAt c (21600 - 0)) := by
  have hc : (⟨86400, 1000, 3, 100, [70, 50]⟩ : PremiumConstants).Positive :=
    ⟨by decide, by decide, by decide, by decide, by decide⟩
  have hshift : |(21600 : ℤ) - 0| / 86400 < 65535 := by decide
  exact ⟨hc, hshift, (premium_range hc hshift).1⟩

end SlotMachine.Chialisp
