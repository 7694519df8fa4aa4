import SlotMachine.Puzzles.PremiumCurve

/-!
# The listener's auction prices

The listener computes the premium of an expired handle itself, in integers of fixed
width, and stops after 28 days.

* `auctionPremium` — the premium (`listener/auction_pricing.rs`); `none` is an overflow.
* `auctionPremium_eq` — **nothing overflows, and the premium is that of the puzzle**.
* `auction_premium_matches` — what `exponential_premium` charges is the price of the other
  puzzle and the listener's premium.
* `premium_le_add` — **the premium rises by no more than rounding**; `premium_rises` — it
  does rise.

The factors of the bits are constants of the SDK, and a parameter here.
-/

namespace SlotMachine.Listener

open FixedPoint

/-- `HALVING_PERIOD`. -/
def halvingPeriod : ℕ := 86400

/-- `AUCTION_DURATION_SECONDS`. -/
def auctionDurationSeconds : ℕ := 28 * 86400

/-- `get_start_premium(SCALE_FACTOR)`. -/
def startPremium : ℕ := 100000000000

/-- `get_end_value(SCALE_FACTOR)`. -/
def endValue : ℕ := startPremium / 2 ^ 28

/-- `PREMIUM_PRECISION`. -/
def premiumPrecision : ℕ := 10 ^ 18

/-- A result that has to fit into some bits. -/
def checked (bits n : ℕ) : Option ℕ := if n < 2 ^ bits then some n else none

theorem checked_eq_some {bits n : ℕ} (h : n < 2 ^ bits) : checked bits n = some n := if_pos h

/-- `1u64 << n`. -/
def shiftOne (n : ℕ) : Option ℕ := if n < 64 then some (2 ^ n) else none

/-- The body of the loop over `PREMIUM_BITS_LIST`. -/
def applyBit (fractionPart acc bit premium : ℕ) : Option ℕ :=
  if fractionPart &&& acc ≠ 0 then do
    let product ← checked 128 (premium * bit)
    checked 64 (product / premiumPrecision)
  else some premium

/-- The loop.  The shift of `acc` drops what leaves 64 bits. -/
def applyBits (fractionPart : ℕ) : List ℕ → (acc premium : ℕ) → Option ℕ
  | [], _, premium => some premium
  | bit :: bits, acc, premium => do
      let premium ← applyBit fractionPart acc bit premium
      applyBits fractionPart bits (acc * 2 % 2 ^ 64) premium

/-- `premium_after_elapsed`. -/
def premiumAfterElapsed (premiumBitsList : List ℕ) (elapsed : ℕ) : Option ℕ := do
  let wholePeriods := elapsed / halvingPeriod
  let rest ← checked 64 (65536 * (elapsed % halvingPeriod))
  let fractionPart := rest / halvingPeriod
  let shifted ← shiftOne wholePeriods
  let premium ← applyBits fractionPart premiumBitsList 1 (startPremium / shifted)
  -- `saturating_sub`
  return premium - endValue

/-- `auction_premium`. -/
def auctionPremium (premiumBitsList : List ℕ) (expiration buyTime : ℕ) : Option ℕ :=
  if buyTime < expiration then some 0
  else if auctionDurationSeconds ≤ buyTime - expiration then some 0
  else premiumAfterElapsed premiumBitsList (buyTime - expiration)

/-- What the SDK curries into `exponential_premium`. -/
def premiumConstants (premiumBitsList : List ℕ) : PremiumConstants :=
  .ofNat halvingPeriod startPremium endValue premiumPrecision premiumBitsList

/-! ## The curve -/

/-- The premium some time after the expiration. -/
def premiumCurve (premiumBitsList : List ℕ) (elapsed : ℕ) : ℕ :=
  halved premiumPrecision startPremium premiumBitsList (elapsed / halvingPeriod)
    (fractionPart halvingPeriod elapsed) - endValue

section

variable {premiumBitsList : List ℕ}

/-- **The puzzle charges the curve.** -/
theorem premiumAt_premiumConstants {elapsed : ℕ} (h : elapsed / halvingPeriod < 65535) :
    premiumAt (premiumConstants premiumBitsList) elapsed
      = some (premiumCurve premiumBitsList elapsed : ℤ) :=
  premiumAt_ofNat (by decide) (by decide) h.le

/-- After 28 days the start value has come down to the end value. -/
theorem premiumCurve_eq_zero (hle : ∀ bit ∈ premiumBitsList, bit ≤ premiumPrecision)
    {elapsed : ℕ} (h : auctionDurationSeconds ≤ elapsed) :
    premiumCurve premiumBitsList elapsed = 0 := by
  have hperiods : 28 ≤ elapsed / halvingPeriod := by
    unfold auctionDurationSeconds at h
    unfold halvingPeriod
    omega
  have hhalved : halved premiumPrecision startPremium premiumBitsList (elapsed / halvingPeriod)
      (fractionPart halvingPeriod elapsed) ≤ startPremium / 2 ^ (elapsed / halvingPeriod) :=
    halved_le hle _ _
  have hend : startPremium / 2 ^ (elapsed / halvingPeriod) ≤ endValue :=
    Nat.div_le_div_left (Nat.pow_le_pow_right (by norm_num) hperiods) (by positivity)
  exact Nat.sub_eq_zero_of_le (hhalved.trans hend)

/-- A product of a premium and a factor fits into 128 bits, and what is left of it after
the division into 64. -/
theorem applyBits_eq (hle : ∀ bit ∈ premiumBitsList, bit ≤ premiumPrecision) {i : ℕ}
    (hi : i + premiumBitsList.length < 64) (fraction : ℕ) {premium : ℕ}
    (hpremium : premium ≤ startPremium) :
    applyBits fraction premiumBitsList (2 ^ i) premium
      = some (scaled premiumPrecision premiumBitsList (fraction / 2 ^ i) premium) := by
  induction premiumBitsList generalizing i premium with
  | nil => rfl
  | cons bit bits ih =>
    rw [List.length_cons] at hi
    have hbit := hle bit List.mem_cons_self
    have hproduct : premium * bit ≤ startPremium * premiumPrecision :=
      Nat.mul_le_mul hpremium hbit
    have hquotient : premium * bit / premiumPrecision ≤ startPremium := by
      refine (Nat.div_le_div_right hproduct).trans ?_
      rw [Nat.mul_div_cancel _ (by decide)]
    have hstep : applyBit fraction (2 ^ i) bit premium
        = some (if fraction / 2 ^ i % 2 = 1 then premium * bit / premiumPrecision
            else premium) := by
      unfold applyBit
      by_cases hset : fraction / 2 ^ i % 2 = 1
      · rw [if_pos hset, if_pos ((and_two_pow_ne_zero fraction i).2 hset)]
        exact bind_intro (checked_eq_some (hproduct.trans_lt (by decide)))
          (checked_eq_some (hquotient.trans_lt (by decide)))
      · rw [if_neg hset, if_neg fun h => hset ((and_two_pow_ne_zero fraction i).1 h)]
    have hacc : 2 ^ i * 2 % 2 ^ 64 = 2 ^ (i + 1) := by
      rw [← pow_succ]
      exact Nat.mod_eq_of_lt (Nat.pow_lt_pow_right (by norm_num) (by omega))
    have hnext : (if fraction / 2 ^ i % 2 = 1 then premium * bit / premiumPrecision
        else premium) ≤ startPremium := by
      split
      · exact hquotient
      · exact hpremium
    refine bind_intro hstep ?_
    rw [hacc, ih (fun b hb => hle b (List.mem_cons_of_mem _ hb)) (by omega) hnext, pow_succ,
      ← Nat.div_div_eq_div_mul]
    rfl

theorem premiumAfterElapsed_eq (hle : ∀ bit ∈ premiumBitsList, bit ≤ premiumPrecision)
    (hlength : premiumBitsList.length < 64) {elapsed : ℕ} (h : elapsed < auctionDurationSeconds) :
    premiumAfterElapsed premiumBitsList elapsed = some (premiumCurve premiumBitsList elapsed) := by
  have hrest : 65536 * (elapsed % halvingPeriod) < 2 ^ 64 := by
    have := Nat.mod_lt elapsed (show 0 < halvingPeriod by decide)
    unfold halvingPeriod at this ⊢
    omega
  have hperiods : elapsed / halvingPeriod < 64 := by
    unfold auctionDurationSeconds at h
    unfold halvingPeriod
    omega
  have hbits := applyBits_eq hle (i := 0) (by omega) (fractionPart halvingPeriod elapsed)
    (Nat.div_le_self startPremium (2 ^ (elapsed / halvingPeriod)))
  rw [pow_zero, Nat.div_one] at hbits
  refine bind_intro (checked_eq_some hrest) ?_
  refine bind_intro (if_pos hperiods) ?_
  exact bind_intro hbits rfl

/-- **Nothing overflows, and the premium is the curve.** -/
theorem auctionPremium_eq (hle : ∀ bit ∈ premiumBitsList, bit ≤ premiumPrecision)
    (hlength : premiumBitsList.length < 64) {expiration buyTime : ℕ} (h : expiration ≤ buyTime) :
    auctionPremium premiumBitsList expiration buyTime
      = some (premiumCurve premiumBitsList (buyTime - expiration)) := by
  unfold auctionPremium
  rw [if_neg (Nat.not_lt.2 h)]
  by_cases hend : auctionDurationSeconds ≤ buyTime - expiration
  · rw [if_pos hend, premiumCurve_eq_zero hle hend]
  · rw [if_neg hend, premiumAfterElapsed_eq hle hlength (not_le.1 hend)]

/-- The time between two instants, as the puzzle computes it. -/
theorem premiumAt_sub {expiration buyTime : ℕ} (h : expiration ≤ buyTime)
    (hshift : (buyTime - expiration) / halvingPeriod < 65535) :
    premiumAt (premiumConstants premiumBitsList) ((buyTime : ℤ) - expiration)
      = some (premiumCurve premiumBitsList (buyTime - expiration) : ℤ) := by
  rw [← Nat.cast_sub h]
  exact premiumAt_premiumConstants hshift

/-- What the puzzle charges: the price of the other puzzle and the premium. -/
theorem exponentialPremium_eq {base : Clvm → Option Clvm} {c : PremiumConstants}
    {buyTime currentExpiration price delta : ℤ} {rest time : Clvm}
    (hbase : base (.pair (.ofInt buyTime) (.pair (.ofInt currentExpiration) rest))
      = some (.pair (.ofInt price) time))
    (hdelta : premiumAt c (buyTime - currentExpiration) = some delta) :
    exponentialPremium base c (.pair (.ofInt buyTime) (.pair (.ofInt currentExpiration) rest))
      = some (.pair (.ofInt (price + delta)) time) := by
  refine bind_intro (Clvm.uncons_pair ..) (bind_intro (Clvm.uncons_pair ..) ?_)
  refine bind_intro hbase (bind_intro (Clvm.uncons_pair ..) ?_)
  refine bind_intro (Clvm.int?_ofInt _) (bind_intro (Clvm.int?_ofInt _) ?_)
  exact bind_intro hdelta (bind_intro (Clvm.int?_ofInt _) rfl)

/-- The listener's premium is computed without an overflow, and is what
`exponential_premium` adds to the price of any other puzzle. -/
theorem auction_premium_matches (hlength : premiumBitsList.length = 16)
    (hle : ∀ bit ∈ premiumBitsList, bit ≤ premiumPrecision) {expiration buyTime : ℕ}
    (h : expiration ≤ buyTime) (hshift : (buyTime - expiration) / halvingPeriod < 65535) :
    ∃ p : ℕ, auctionPremium premiumBitsList expiration buyTime = some p ∧
      premiumAt (premiumConstants premiumBitsList) ((buyTime : ℤ) - expiration) = some (p : ℤ) ∧
      ∀ (base : Clvm → Option Clvm) (rest : Clvm) (price : ℤ) (time : Clvm),
        base (.pair (.ofInt buyTime) (.pair (.ofInt expiration) rest))
            = some (.pair (.ofInt price) time) →
          exponentialPremium base (premiumConstants premiumBitsList)
              (.pair (.ofInt buyTime) (.pair (.ofInt expiration) rest))
            = some (.pair (.ofInt (price + p)) time) :=
  ⟨_, auctionPremium_eq hle (by omega) h, premiumAt_sub h hshift,
    fun _ _ _ _ hbase => exponentialPremium_eq hbase (premiumAt_sub h hshift)⟩

/-! ## The premium over time -/

theorem premiumCurve_le_add (hlength : premiumBitsList.length = 16)
    (hle : ∀ bit ∈ premiumBitsList, bit ≤ premiumPrecision)
    (hcarries : Carries premiumPrecision (1 / 2) 1 premiumBitsList) {s t : ℕ} (hst : s ≤ t) :
    premiumCurve premiumBitsList t
      ≤ premiumCurve premiumBitsList s + setBits 16 (fractionPart halvingPeriod s) := by
  have hfraction : fractionPart halvingPeriod t < 2 ^ premiumBitsList.length := by
    rw [hlength]
    exact fractionPart_lt (by decide) t
  have hhalved : halved premiumPrecision startPremium premiumBitsList (t / halvingPeriod)
        (fractionPart halvingPeriod t)
      ≤ halved premiumPrecision startPremium premiumBitsList (s / halvingPeriod)
          (fractionPart halvingPeriod s) + setBits premiumBitsList.length _ :=
    halved_le_add (by decide) hle hcarries (periods_lt_or_fractionPart_le hst) hfraction
  rw [hlength] at hhalved
  unfold premiumCurve
  omega

/-- The premium at a later buy time is at most that at an earlier one, and one more for each
set bit of the fraction of the earlier one's day: in the puzzle and in the listener. -/
theorem premium_le_add (hlength : premiumBitsList.length = 16)
    (hle : ∀ bit ∈ premiumBitsList, bit ≤ premiumPrecision)
    (hcarries : Carries premiumPrecision (1 / 2) 1 premiumBitsList) {expiration s t : ℕ}
    (hs : expiration ≤ s) (hst : s ≤ t) (hshift : (t - expiration) / halvingPeriod < 65535) :
    ∃ p q : ℕ,
      (premiumAt (premiumConstants premiumBitsList) ((s : ℤ) - expiration) = some (p : ℤ) ∧
        auctionPremium premiumBitsList expiration s = some p) ∧
      (premiumAt (premiumConstants premiumBitsList) ((t : ℤ) - expiration) = some (q : ℤ) ∧
        auctionPremium premiumBitsList expiration t = some q) ∧
      q ≤ p + setBits 16 (fractionPart halvingPeriod (s - expiration)) := by
  have hsub : s - expiration ≤ t - expiration := Nat.sub_le_sub_right hst expiration
  have hshift' : (s - expiration) / halvingPeriod < 65535 :=
    (Nat.div_le_div_right hsub).trans_lt hshift
  exact ⟨_, _, ⟨premiumAt_sub hs hshift', auctionPremium_eq hle (by omega) hs⟩,
    ⟨premiumAt_sub (hs.trans hst) hshift, auctionPremium_eq hle (by omega) (hs.trans hst)⟩,
    premiumCurve_le_add hlength hle hcarries hsub⟩

end

/-! ## The factors of a halving -/

namespace PremiumExample

/-- The powers `0.5 ^ (2 ^ i / 65536)` in units of the precision. -/
def premiumBitsList : List ℕ :=
  [999989423469314432, 999978847050491904, 999957694548431104, 999915390886613504,
   999830788931929088, 999661606496243712, 999323327502650752, 998647112890970240,
   997296056085470080, 994599423483633152, 989228013193975424, 978572062087700096,
   957603280698573696, 917004043204671232, 840896415253714560, 707106781186547584]

theorem le_precision : ∀ bit ∈ premiumBitsList, bit ≤ premiumPrecision := by decide

theorem carries : Carries premiumPrecision (1 / 2) 1 premiumBitsList := by
  norm_num [Carries, premiumPrecision, premiumBitsList]

/-- The day of the expiration, an hour later, and about twenty hours before the end. -/
example : auctionPremium premiumBitsList 0 0 = some 99999999628 ∧
    auctionPremium premiumBitsList 0 3600 = some 97153878776 ∧
    auctionPremium premiumBitsList 0 (auctionDurationSeconds - 71767) = some 285 := by
  decide +kernel

end PremiumExample

open PremiumExample in
/-- The premium of a buy time a day and a half after the expiration. -/
theorem auction_premium_matches_example :
    premiumBitsList.length = 16 ∧ (1000 ≤ 130600 ∧ (130600 - 1000) / halvingPeriod < 65535) ∧
      ∃ p : ℕ, auctionPremium premiumBitsList 1000 130600 = some p := by
  have hlength : premiumBitsList.length = 16 := rfl
  have htime : 1000 ≤ 130600 ∧ (130600 - 1000) / halvingPeriod < 65535 := by decide
  obtain ⟨p, hp, -⟩ := auction_premium_matches hlength le_precision htime.1 htime.2
  exact ⟨hlength, htime, p, hp⟩

open PremiumExample in
/-- The same buy time and one an hour later. -/
theorem premium_le_add_example :
    premiumBitsList.length = 16 ∧ Carries premiumPrecision (1 / 2) 1 premiumBitsList ∧
      ∃ p q : ℕ, auctionPremium premiumBitsList 1000 130600 = some p ∧
        auctionPremium premiumBitsList 1000 134200 = some q ∧ q ≤ p + 1 := by
  have hlength : premiumBitsList.length = 16 := rfl
  have hbits : setBits 16 (fractionPart halvingPeriod (130600 - 1000)) = 1 := by decide
  obtain ⟨p, q, ⟨-, hp⟩, ⟨-, hq⟩, hle⟩ :=
    premium_le_add hlength le_precision carries (show 1000 ≤ 130600 by decide)
      (show 130600 ≤ 134200 by decide) (by decide)
  rw [hbits] at hle
  exact ⟨hlength, carries, p, q, hp, hq, hle⟩

open PremiumExample in
/-- A week before the end the premium rises from one second to the next, by eight
thousandths of a CAT. -/
theorem premium_rises :
    premiumAt (premiumConstants premiumBitsList) (1817099 - 0) = some 46281 ∧
      auctionPremium premiumBitsList 0 1817099 = some 46281 ∧
      premiumAt (premiumConstants premiumBitsList) (1817100 - 0) = some 46289 ∧
      auctionPremium premiumBitsList 0 1817100 = some 46289 := by
  decide +kernel

end SlotMachine.Listener
