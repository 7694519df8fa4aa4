import SlotMachine.Ledger.FixedPoint
import SlotMachine.Puzzles.ExponentialPremium

/-!
# The curve of the premium

The premium as a function of the time since the expiration, over constants that are no
negative integers: a start value that is halved every period and scaled within one.

* `premiumAt_ofNat` — the puzzle computes `FixedPoint.halved`, less the end value.
* `premiumInRange` — **the puzzle raises exactly before the expiration**, and the premium
  is at most the start value halved once for each period that has passed.
-/

namespace SlotMachine

open FixedPoint

/-- Constants that are no negative integers. -/
def PremiumConstants.ofNat (halvingPeriod startPremium endValue precision : ℕ)
    (bitsList : List ℕ) : PremiumConstants where
  halvingPeriod := halvingPeriod
  startPremium := startPremium
  endValue := endValue
  precision := precision
  bitsList := bitsList.map (↑)

/-- The part of a period that has passed, in 65536ths. -/
def fractionPart (halvingPeriod elapsed : ℕ) : ℕ :=
  65536 * (elapsed % halvingPeriod) / halvingPeriod

theorem fractionPart_lt {halvingPeriod : ℕ} (h : 0 < halvingPeriod) (elapsed : ℕ) :
    fractionPart halvingPeriod elapsed < 2 ^ 16 := by
  unfold fractionPart
  rw [Nat.div_lt_iff_lt_mul h]
  have := Nat.mod_lt elapsed h
  omega

/-- The time since the expiration as periods and a fraction, which come in its order. -/
theorem periods_lt_or_fractionPart_le {halvingPeriod s t : ℕ} (hst : s ≤ t) :
    s / halvingPeriod < t / halvingPeriod ∨ s / halvingPeriod = t / halvingPeriod ∧
      fractionPart halvingPeriod s ≤ fractionPart halvingPeriod t := by
  rcases Nat.lt_or_eq_of_le (Nat.div_le_div_right (c := halvingPeriod) hst) with hlt | heq
  · exact Or.inl hlt
  · refine Or.inr ⟨heq, Nat.div_le_div_right (Nat.mul_le_mul_left _ ?_)⟩
    have hs := Nat.div_add_mod s halvingPeriod
    have ht := Nat.div_add_mod t halvingPeriod
    rw [heq] at hs
    omega

/-! ## What the puzzle computes -/

theorem divide_ofNat {a b : ℕ} (h : 0 < b) :
    Clvm.divide a b = some (((a / b : ℕ) : ℤ), ((a % b : ℕ) : ℤ)) := by
  have hne : (b : ℤ) ≠ 0 := by exact_mod_cast h.ne'
  unfold Clvm.divide
  rw [if_neg hne, Int.fdiv_eq_ediv_of_nonneg _ (Nat.cast_nonneg b),
    Int.fmod_eq_emod_of_nonneg _ (Nat.cast_nonneg b), Int.natCast_ediv, Int.natCast_emod]

/-- Shifting a one to the left. -/
theorem shift_one {n : ℕ} (h : n ≤ 65535) :
    (Clvm.shift 1 n).bind Clvm.int? = some ((2 ^ n : ℕ) : ℤ) := by
  unfold Clvm.shift
  rw [if_pos (by simpa using h), if_pos (Nat.cast_nonneg n), Option.bind_some, Clvm.int?_ofInt]
  simp

/-- A bit of a number, as the operator `logand` finds it. -/
theorem land_two_pow_ne_zero (fraction i : ℕ) :
    Int.land (fraction : ℤ) ((2 ^ i : ℕ) : ℤ) ≠ 0 ↔ fraction / 2 ^ i % 2 = 1 := by
  have hland : Int.land (fraction : ℤ) ((2 ^ i : ℕ) : ℤ) = ((fraction &&& 2 ^ i : ℕ) : ℤ) := rfl
  rw [hland, Nat.cast_ne_zero, and_two_pow_ne_zero]

theorem addFractionalPart_ofNat {precision : ℕ} (h : 0 < precision) (bitsList : List ℕ)
    (i fraction premium : ℕ) :
    addFractionalPart precision (bitsList.map (↑)) ((2 ^ i : ℕ) : ℤ) fraction premium
      = some (scaled precision bitsList (fraction / 2 ^ i) premium : ℤ) := by
  induction bitsList generalizing i premium with
  | nil => rfl
  | cons bit bitsList ih =>
    have hstep : applyBit precision bit ((2 ^ i : ℕ) : ℤ) fraction premium
        = some ((if fraction / 2 ^ i % 2 = 1 then premium * bit / precision
            else premium : ℕ) : ℤ) := by
      unfold applyBit
      rw [← Nat.cast_mul, divide_ofNat h]
      show some (if _ then _ else _) = _
      rw [if_congr (land_two_pow_ne_zero fraction i) rfl rfl]
      push_cast
      rfl
    have hacc : ((2 ^ i : ℕ) : ℤ) * 2 = ((2 ^ (i + 1) : ℕ) : ℤ) := by
      push_cast
      rw [pow_succ]
    show applyBit precision bit ((2 ^ i : ℕ) : ℤ) fraction premium >>= _ = _
    rw [hstep]
    show addFractionalPart precision (bitsList.map (↑)) (((2 ^ i : ℕ) : ℤ) * 2) fraction _ = _
    rw [hacc, ih, pow_succ, ← Nat.div_div_eq_div_mul]
    rfl

theorem correctPremium_ofNat (premium endValue : ℕ) :
    correctPremium premium endValue = ((premium - endValue : ℕ) : ℤ) := by
  unfold correctPremium
  split <;> omega

/-- **The premium after some time**, if there are fewer periods than the chain shifts by. -/
theorem premiumAt_ofNat {halvingPeriod startPremium endValue precision : ℕ} {bitsList : List ℕ}
    (hperiod : 0 < halvingPeriod) (hprecision : 0 < precision) {elapsed : ℕ}
    (hshift : elapsed / halvingPeriod ≤ 65535) :
    premiumAt (.ofNat halvingPeriod startPremium endValue precision bitsList) elapsed
      = some ((halved precision startPremium bitsList (elapsed / halvingPeriod)
          (fractionPart halvingPeriod elapsed) - endValue : ℕ) : ℤ) := by
  have hpart : Clvm.divide (65536 * ((elapsed % halvingPeriod : ℕ) : ℤ)) halvingPeriod
      = some ((fractionPart halvingPeriod elapsed : ℤ),
          ((65536 * (elapsed % halvingPeriod) % halvingPeriod : ℕ) : ℤ)) := by
    rw [fractionPart, ← divide_ofNat hperiod]
    push_cast
    rfl
  have hfraction := addFractionalPart_ofNat hprecision bitsList 0
    (fractionPart halvingPeriod elapsed) (startPremium / 2 ^ (elapsed / halvingPeriod))
  unfold premiumAt PremiumConstants.ofNat
  refine bind_intro (divide_ofNat hperiod) ?_
  refine bind_intro hpart ?_
  refine bind_intro (shift_one hshift) ?_
  refine bind_intro (divide_ofNat (by positivity)) ?_
  refine bind_intro hfraction ?_
  rw [pow_zero, Nat.div_one, correctPremium_ofNat]
  rfl

/-! ## The range of the premium -/

/-- Constants a premium can be computed with. -/
structure PremiumConstants.Positive (c : PremiumConstants) : Prop where
  halvingPeriod : 0 < c.halvingPeriod
  startPremium : 0 < c.startPremium
  endValue : 0 ≤ c.endValue
  precision : 0 < c.precision
  bitsList : ∀ bit ∈ c.bitsList, 0 ≤ bit ∧ bit ≤ c.precision

/-- Such constants are natural numbers. -/
theorem PremiumConstants.Positive.exists_ofNat {c : PremiumConstants} (h : c.Positive) :
    ∃ halvingPeriod startPremium endValue precision bitsList,
      c = .ofNat halvingPeriod startPremium endValue precision bitsList ∧ 0 < halvingPeriod ∧
        0 < precision ∧ ∀ bit ∈ bitsList, bit ≤ precision := by
  obtain ⟨hperiod, hstart, hend, hprecision, hbits⟩ := h
  obtain ⟨halvingPeriod, startPremium, endValue, precision, bitsList⟩ := c
  lift halvingPeriod to ℕ using hperiod.le
  lift startPremium to ℕ using hstart.le
  lift endValue to ℕ using hend
  lift precision to ℕ using hprecision.le
  lift bitsList to List ℕ using fun bit hbit => (hbits bit hbit).1
  refine ⟨halvingPeriod, startPremium, endValue, precision, bitsList, rfl,
    Int.natCast_pos.1 hperiod, Int.natCast_pos.1 hprecision, fun bit hbit => ?_⟩
  exact Int.ofNat_le.1 (hbits bit (List.mem_map_of_mem hbit)).2

/-- What is charged as a premium for a buy time: nothing that could be computed before the
expiration, then at most the start value halved for every period, and nothing once this
is down to the end value. -/
structure PremiumInRange (c : PremiumConstants) (buyTime currentExpiration : ℤ)
    (premium : Option ℤ) : Prop where
  raises_iff : premium = none ↔ buyTime < currentExpiration
  nonneg : ∀ p ∈ premium, 0 ≤ p
  le_halved : ∀ p ∈ premium,
    p ≤ c.startPremium / 2 ^ ((buyTime - currentExpiration) / c.halvingPeriod).toNat
  eq_zero : ∀ p ∈ premium,
    c.startPremium / 2 ^ ((buyTime - currentExpiration) / c.halvingPeriod).toNat ≤ c.endValue →
      p = 0

/-- **The premium is in its range**, at most 65535 periods after the expiration. -/
theorem premiumInRange {c : PremiumConstants} (hc : c.Positive) {buyTime currentExpiration : ℤ}
    (hshift : (buyTime - currentExpiration) / c.halvingPeriod ≤ 65535) :
    PremiumInRange c buyTime currentExpiration (premiumAt c (buyTime - currentExpiration)) := by
  by_cases hbefore : buyTime < currentExpiration
  · -- there is no premium
    have hnone : premiumAt c (buyTime - currentExpiration) = none := by
      rw [Option.eq_none_iff_forall_ne_some]
      intro p hp
      have := elapsed_nonneg hc.halvingPeriod hp
      omega
    rw [hnone]
    refine ⟨iff_of_true rfl hbefore, ?_, ?_, ?_⟩ <;> exact fun p hp => by cases hp
  · obtain ⟨H, S, E, P, bits, rfl, hH, hP, hbits⟩ := hc.exists_ofNat
    obtain ⟨elapsed, helapsed⟩ := Int.eq_ofNat_of_zero_le (a := buyTime - currentExpiration)
      (by omega)
    have hshift' : (elapsed : ℤ) / (H : ℤ) ≤ 65535 := by
      rw [← helapsed]
      exact hshift
    rw [helapsed]
    have hperiods : ((elapsed : ℤ) / (H : ℤ)).toNat = elapsed / H := by
      rw [← Int.natCast_ediv, Int.toNat_natCast]
    have hle : halved P S bits (elapsed / H) (fractionPart H elapsed) ≤ S / 2 ^ (elapsed / H) :=
      halved_le hbits _ _
    have hpremium : premiumAt (.ofNat H S E P bits) elapsed = _ :=
      premiumAt_ofNat hH hP (by exact_mod_cast hshift')
    rw [hpremium]
    refine ⟨iff_of_false (Option.some_ne_none _) hbefore, ?_, ?_, ?_⟩
    · rintro p ⟨⟩
      exact Nat.cast_nonneg _
    · rintro p ⟨⟩
      rw [helapsed]
      show _ ≤ (S : ℤ) / 2 ^ ((elapsed : ℤ) / (H : ℤ)).toNat
      rw [hperiods]
      exact_mod_cast (Nat.sub_le _ _).trans hle
    · rintro p ⟨⟩ hend
      rw [helapsed] at hend
      have hend' : (S : ℤ) / 2 ^ ((elapsed : ℤ) / (H : ℤ)).toNat ≤ E := hend
      rw [hperiods] at hend'
      have hend'' : S / 2 ^ (elapsed / H) ≤ E := by exact_mod_cast hend'
      exact_mod_cast Nat.sub_eq_zero_of_le (hle.trans hend'')

end SlotMachine
