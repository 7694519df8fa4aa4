import SlotMachine.Puzzles.ExponentialPremium

/-!
# The default pricing puzzles on arbitrary trees

* `factorPricing`, `exponentialPremium` — the Rue puzzles, curried with trees.
* `factorPricing_ofInt`, `exponentialPremium_ofConstants` — on integers they are those of
  the other files.
-/

namespace SlotMachine.Rue

/-- `factor_pricing.rue`. -/
def factorPricing (basePrice registrationPeriod solution : Clvm) : Option Clvm := do
  let (_, solution) ← solution.uncons
  let (_, solution) ← solution.uncons
  let (handle, numPeriods) ← solution.uncons
  let periods ← numPeriods.int?
  assertThat (decide (periods > 0))
  let base ← basePrice.int?
  let h ← handle.bytes?
  let numbers ← countNumbersAndValidate h
  let factor ← getPriceFactor h.length numbers
  let period ← registrationPeriod.int?
  return .pair (.ofInt (periods * base * factor)) (.ofInt (periods * period))

/-- What is curried into `exponential_premium`, apart from the puzzle it calls. -/
structure PremiumTrees where
  halvingPeriod : Clvm
  startPremium : Clvm
  endValue : Clvm
  precision : Clvm
  bitsList : Clvm

/-- The premium for one more bit of the fraction, both branches of which are computed. -/
def applyBit (precision bit : Clvm) (acc fractionPart premium : ℤ) : Option ℤ := do
  let b ← bit.int?
  let p ← precision.int?
  let (scaled, _) ← Clvm.divide (premium * b) p
  return if Int.land fractionPart acc ≠ 0 then scaled else premium

/-- `add_fractional_part`. -/
def addFractionalPart (precision : Clvm) : Clvm → (acc fractionPart premium : ℤ) → Option ℤ
  | .atom [], _, _, premium => some premium
  -- an atom has no rest
  | .atom (_ :: _), _, _, _ => none
  | .pair bit bitsList, acc, fractionPart, premium => do
      let premium ← applyBit precision bit acc fractionPart premium
      addFractionalPart precision bitsList (acc * 2) fractionPart premium

/-- `price_delta`, by the time that has passed since the expiration. -/
def premiumAt (c : PremiumTrees) (elapsed : ℤ) : Option ℤ := do
  let halvingPeriod ← c.halvingPeriod.int?
  let startPremium ← c.startPremium.int?
  let endValue ← c.endValue.int?
  let (periods, rest) ← Clvm.divide elapsed halvingPeriod
  let (fractionPart, _) ← Clvm.divide (65536 * rest) halvingPeriod
  let halvings ← (Clvm.shift 1 periods).bind Clvm.int?
  let (premium, _) ← Clvm.divide startPremium halvings
  let premium ← addFractionalPart c.precision c.bitsList 1 fractionPart premium
  return correctPremium premium endValue

/-- `exponential_premium.rue`. -/
def exponentialPremium (base : Clvm → Option Clvm) (c : PremiumTrees) (solution : Clvm) :
    Option Clvm := do
  let (buyTime, rest) ← solution.uncons
  let (currentExpiration, _) ← rest.uncons
  let output ← base solution
  let (basePrice, baseTime) ← output.uncons
  let t ← buyTime.int?
  let e ← currentExpiration.int?
  let delta ← premiumAt c (t - e)
  let price ← basePrice.int?
  return .pair (.ofInt (price + delta)) baseTime

/-! ## On integers -/

theorem factorPricing_ofInt (basePrice registrationPeriod : ℤ) (solution : Clvm) :
    factorPricing (.ofInt basePrice) (.ofInt registrationPeriod) solution
      = SlotMachine.factorPricing basePrice registrationPeriod solution := by
  unfold factorPricing SlotMachine.factorPricing
  simp only [Clvm.int?_ofInt]
  rfl

/-- Integer constants as trees. -/
def PremiumTrees.ofConstants (c : PremiumConstants) : PremiumTrees where
  halvingPeriod := .ofInt c.halvingPeriod
  startPremium := .ofInt c.startPremium
  endValue := .ofInt c.endValue
  precision := .ofInt c.precision
  bitsList := .ofList (c.bitsList.map .ofInt)

theorem applyBit_ofInt (precision bit acc fractionPart premium : ℤ) :
    applyBit (.ofInt precision) (.ofInt bit) acc fractionPart premium
      = SlotMachine.applyBit precision bit acc fractionPart premium := by
  unfold applyBit SlotMachine.applyBit
  simp only [Clvm.int?_ofInt]
  rfl

theorem addFractionalPart_ofInt (precision : ℤ) (bitsList : List ℤ) (acc fractionPart premium : ℤ) :
    addFractionalPart (.ofInt precision) (.ofList (bitsList.map .ofInt)) acc fractionPart premium
      = SlotMachine.addFractionalPart precision bitsList acc fractionPart premium := by
  induction bitsList generalizing acc premium with
  | nil => rfl
  | cons bit bitsList ih =>
      show applyBit _ _ acc fractionPart premium >>= _ = _
      rw [applyBit_ofInt]
      exact congrArg _ (funext fun premium => ih (acc * 2) premium)

theorem premiumAt_ofConstants (c : PremiumConstants) (elapsed : ℤ) :
    premiumAt (.ofConstants c) elapsed = SlotMachine.premiumAt c elapsed := by
  unfold premiumAt SlotMachine.premiumAt PremiumTrees.ofConstants
  simp only [Clvm.int?_ofInt, addFractionalPart_ofInt]
  rfl

theorem exponentialPremium_ofConstants (base : Clvm → Option Clvm) (c : PremiumConstants)
    (solution : Clvm) :
    exponentialPremium base (.ofConstants c) solution
      = SlotMachine.exponentialPremium base c solution := by
  unfold exponentialPremium SlotMachine.exponentialPremium
  simp only [premiumAt_ofConstants]

end SlotMachine.Rue
