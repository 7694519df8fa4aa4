import SlotMachine.Clvm.Machine

/-!
# `factor_pricing`

The default pricing puzzle: a price by the length of the handle, halved if there
is a digit in it, and a time for each period that is paid for.

* `factorPricing` — the puzzle, with `getPriceFactor` and
  `countNumbersAndValidate`.
* `factorPricing_eq_some` — what it returns, and that the number of periods is
  positive then.
* `registered_pos` — **the registered time is positive**.
-/

namespace SlotMachine

namespace Clvm

/-- An argument that the program reads as an integer. -/
def int? (v : Clvm) : Option ℤ := v.bytes?.map intFromBytes

theorem int?_eq_some {v : Clvm} {z : ℤ} :
    v.int? = some z ↔ ∃ b, v = .atom b ∧ intFromBytes b = z := by
  cases v <;> simp [int?, bytes?]

@[simp] theorem int?_ofInt (z : ℤ) : (ofInt z).int? = some z := by
  simp [int?, ofInt]

end Clvm

/-- `get_price_factor`. -/
def getPriceFactor (length numberOfNumbers : ℤ) : Option ℤ := do
  let p : ℤ ←
    (if length > 2 then
      (if length > 4 then
        (if length = 5 then some 16
        else if length > 63 then none else some 2)
      else if length = 3 then some 128 else some 64)
    else none)
  return p.fdiv (if numberOfNumbers = 0 then 1 else 2)

/-- `count_numbers_and_validate`: a character is a lower-case letter or a digit. -/
def countNumbersAndValidate : Bytes → Option ℤ
  | [] => some 0
  | b :: handleRest =>
      if intFromBytes [b] > 97 - 1 ∧ intFromBytes [b] < 122 + 1 then
        countNumbersAndValidate handleRest
      else do
        assertThat (decide (intFromBytes [b] > 48 - 1 ∧ intFromBytes [b] < 57 + 1))
        let n ← countNumbersAndValidate handleRest
        return n + 1

/-- `main` of `factor_pricing.rue`, on
`(Buy_Time Current_Expiration Handle . num_periods)`. -/
def factorPricing (basePrice registrationPeriod : ℤ) (solution : Clvm) : Option Clvm := do
  let (_, solution) ← solution.uncons
  let (_, solution) ← solution.uncons
  let (handle, numPeriods) ← solution.uncons
  let periods ← numPeriods.int?
  assertThat (decide (periods > 0))
  let h ← handle.bytes?
  let numbers ← countNumbersAndValidate h
  let factor ← getPriceFactor h.length numbers
  return .pair (.ofInt (periods * basePrice * factor)) (.ofInt (periods * registrationPeriod))

/-- What the puzzle returns. -/
theorem factorPricing_eq_some {basePrice registrationPeriod : ℤ} {solution out : Clvm} :
    factorPricing basePrice registrationPeriod solution = some out ↔
      ∃ buyTime currentExpiration handle n numbers factor,
        solution = .pair buyTime (.pair currentExpiration (.pair (.atom handle) (.atom n))) ∧
        0 < intFromBytes n ∧ countNumbersAndValidate handle = some numbers ∧
        getPriceFactor handle.length numbers = some factor ∧
        out = .pair (.ofInt (intFromBytes n * basePrice * factor))
          (.ofInt (intFromBytes n * registrationPeriod)) := by
  constructor
  · intro h
    obtain ⟨⟨buyTime, r⟩, h0, h1⟩ := bind_elim h
    obtain ⟨⟨currentExpiration, r'⟩, hr, h2⟩ := bind_elim h1
    obtain ⟨⟨handle, numPeriods⟩, hr', h3⟩ := bind_elim h2
    obtain ⟨periods, hperiods, h4⟩ := bind_elim h3
    obtain ⟨_, hassert, h5⟩ := bind_elim h4
    obtain ⟨b, hb, h6⟩ := bind_elim h5
    obtain ⟨numbers, hnumbers, h7⟩ := bind_elim h6
    obtain ⟨factor, hfactor, h8⟩ := bind_elim h7
    obtain rfl := Clvm.uncons_eq_some.1 h0
    obtain rfl := Clvm.uncons_eq_some.1 hr
    obtain rfl := Clvm.uncons_eq_some.1 hr'
    obtain ⟨n, rfl, rfl⟩ := Clvm.int?_eq_some.1 hperiods
    obtain rfl := Clvm.bytes?_eq_some.1 hb
    have hpos : 0 < intFromBytes n := of_decide_eq_true (assertThat_eq_some.1 hassert)
    exact ⟨buyTime, currentExpiration, b, n, numbers, factor, rfl, hpos, hnumbers, hfactor,
      (Option.some.inj h8).symm⟩
  · rintro ⟨buyTime, currentExpiration, handle, n, numbers, factor, rfl, hpos, hnumbers, hfactor,
      rfl⟩
    refine bind_intro rfl (bind_intro rfl (bind_intro rfl (bind_intro rfl ?_)))
    have hassert : assertThat (decide (intFromBytes n > 0)) = some () :=
      assertThat_eq_some.2 (decide_eq_true hpos)
    refine bind_intro hassert ?_
    exact bind_intro rfl (bind_intro hnumbers (bind_intro hfactor rfl))

/-- **The registered time is positive**, for a positive period. -/
theorem registered_pos {basePrice registrationPeriod : ℤ} (hperiod : 0 < registrationPeriod)
    {solution price time : Clvm}
    (h : factorPricing basePrice registrationPeriod solution = some (.pair price time)) :
    ∃ t : ℤ, time = .ofInt t ∧ 0 < t := by
  obtain ⟨_, _, _, n, _, _, -, hpos, -, -, hout⟩ := factorPricing_eq_some.1 h
  obtain ⟨-, rfl⟩ := Clvm.pair.inj hout
  exact ⟨_, rfl, mul_pos hpos hperiod⟩

/-- Two periods of a handle of five letters. -/
example : factorPricing 10 366 (.pair .nil (.pair .nil (.pair (.atom [97, 98, 99, 100, 101])
    (.atom [2])))) = some (.pair (.ofInt 320) (.ofInt 732)) := by decide +kernel

end SlotMachine
