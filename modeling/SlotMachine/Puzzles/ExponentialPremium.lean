import SlotMachine.Puzzles.FactorPricing

/-!
# `exponential_premium`

The pricing puzzle of expired handles: the price of another puzzle, and a
premium that is halved every period since the handle expired.

* `exponentialPremium` — the puzzle, over the puzzle `base` it calls.
* `premiumAt` — the premium by the time since the expiration;
  `elapsed_nonneg` says that **there is none before the expiration**.
* `exponentialPremium_time` — the buy time is not before the expiration, and the
  registered time is the one of the other puzzle.
-/

namespace SlotMachine

/-- What is curried into `exponential_premium.rue`, apart from the puzzle it calls. -/
structure PremiumConstants where
  halvingPeriod : ℤ
  startPremium : ℤ
  endValue : ℤ
  precision : ℤ
  bitsList : List ℤ

/-- The premium for one more bit of the fraction, if it is set.  An `inline if` computes
both of its branches. -/
def applyBit (precision bit acc fractionPart premium : ℤ) : Option ℤ := do
  let (scaled, _) ← Clvm.divide (premium * bit) precision
  return if Int.land fractionPart acc ≠ 0 then scaled else premium

/-- `add_fractional_part`. -/
def addFractionalPart (precision : ℤ) : List ℤ → (acc fractionPart premium : ℤ) → Option ℤ
  | [], _, _, premium => some premium
  | bit :: bitsList, acc, fractionPart, premium => do
      let premium ← applyBit precision bit acc fractionPart premium
      addFractionalPart precision bitsList (acc * 2) fractionPart premium

/-- `correct_premium`. -/
def correctPremium (premium endValue : ℤ) : ℤ :=
  if premium > endValue then premium - endValue else 0

/-- `price_delta`, by the time that has passed since the expiration. -/
def premiumAt (c : PremiumConstants) (elapsed : ℤ) : Option ℤ := do
  let (periods, rest) ← Clvm.divide elapsed c.halvingPeriod
  let (fractionPart, _) ← Clvm.divide (65536 * rest) c.halvingPeriod
  let halvings ← (Clvm.shift 1 periods).bind Clvm.int?
  let (premium, _) ← Clvm.divide c.startPremium halvings
  let premium ← addFractionalPart c.precision c.bitsList 1 fractionPart premium
  return correctPremium premium c.endValue

/-- `main` of `exponential_premium.rue`, on `(Buy_Time Current_Expiration . …)`. -/
def exponentialPremium (base : Clvm → Option Clvm) (c : PremiumConstants) (solution : Clvm) :
    Option Clvm := do
  let (buyTime, rest) ← solution.uncons
  let (currentExpiration, _) ← rest.uncons
  let output ← base solution
  let (basePrice, baseTime) ← output.uncons
  let t ← buyTime.int?
  let e ← currentExpiration.int?
  let delta ← premiumAt c (t - e)
  let price ← basePrice.int?
  return .pair (.ofInt (price + delta)) baseTime

/-- **Before the expiration there is no premium.**  A negative number of periods
shifts the one out, and then the premium is divided by zero. -/
theorem elapsed_nonneg {c : PremiumConstants} (hc : 0 < c.halvingPeriod) {elapsed delta : ℤ}
    (h : premiumAt c elapsed = some delta) : 0 ≤ elapsed := by
  by_contra hneg
  obtain ⟨⟨periods, rest⟩, hperiods, h1⟩ := bind_elim h
  obtain ⟨_, -, h2⟩ := bind_elim h1
  obtain ⟨halvings, hhalvings, h3⟩ := bind_elim h2
  obtain ⟨_, hpremium, -⟩ := bind_elim h3
  have hfdiv : periods = elapsed.fdiv c.halvingPeriod := by
    unfold Clvm.divide at hperiods
    rw [if_neg hc.ne'] at hperiods
    exact (Prod.mk.inj (Option.some.inj hperiods)).1.symm
  have hbefore : periods < 0 := by
    rw [hfdiv, Int.fdiv_eq_ediv_of_nonneg _ hc.le]
    exact Int.ediv_neg_of_neg_of_pos (not_le.1 hneg) hc
  obtain ⟨v, hshift, hv⟩ := Option.bind_eq_some_iff.1 hhalvings
  have hzero : halvings = 0 := by
    unfold Clvm.shift at hshift
    split at hshift
    · rw [if_neg (not_le.2 hbefore)] at hshift
      obtain rfl := Option.some.inj hshift
      rw [Clvm.int?_ofInt] at hv
      rw [← Option.some.inj hv]
      have hpow : (1 : ℤ) < 2 ^ (-periods).toNat :=
        one_lt_pow₀ (by norm_num) (by omega)
      exact Int.ediv_eq_zero_of_lt (by norm_num) hpow
    · cases hshift
  rw [hzero] at hpremium
  exact absurd hpremium (by simp [Clvm.divide])

/-- The buy time is not before the expiration, and the registered time is that of
the other puzzle. -/
theorem exponentialPremium_time {base : Clvm → Option Clvm} {c : PremiumConstants}
    (hc : 0 < c.halvingPeriod) {buyTime currentExpiration rest price time : Clvm}
    (h : exponentialPremium base c (.pair buyTime (.pair currentExpiration rest))
      = some (.pair price time)) :
    (∃ t e, buyTime = .atom t ∧ currentExpiration = .atom e ∧ intFromBytes e ≤ intFromBytes t) ∧
      ∃ basePrice, base (.pair buyTime (.pair currentExpiration rest))
        = some (.pair basePrice time) := by
  obtain ⟨_, hsolution, h1⟩ := bind_elim h
  cases hsolution
  obtain ⟨_, hrest, h2⟩ := bind_elim h1
  cases hrest
  obtain ⟨output, houtput, h3⟩ := bind_elim h2
  obtain ⟨⟨basePrice, baseTime⟩, hpair, h4⟩ := bind_elim h3
  obtain ⟨t, ht, h5⟩ := bind_elim h4
  obtain ⟨e, he, h6⟩ := bind_elim h5
  obtain ⟨delta, hdelta, h7⟩ := bind_elim h6
  obtain ⟨_, -, h8⟩ := bind_elim h7
  obtain ⟨t', rfl, rfl⟩ := Clvm.int?_eq_some.1 ht
  obtain ⟨e', rfl, rfl⟩ := Clvm.int?_eq_some.1 he
  obtain rfl := Clvm.uncons_eq_some.1 hpair
  obtain ⟨-, rfl⟩ := Clvm.pair.inj (Option.some.inj h8)
  have helapsed := elapsed_nonneg hc hdelta
  exact ⟨⟨t', e', rfl, rfl, by omega⟩, basePrice, houtput⟩

end SlotMachine
