import SlotMachine.Puzzles.FactorPricing

/-!
# The grammar of handles

The listener and the command line check a handle with a predicate on its bytes; the
default pricing puzzle walks the atom, one signed byte at a time.

* `isCanonicalHandle` — the predicate (`listener/types.rs`).
* `handleFactor` — the factor by which a handle of some length is priced.
* `factorPricing_eq_ite` — **the puzzle prices exactly the canonical handles**, for a
  positive number of periods, with that factor.
-/

namespace SlotMachine.Listener

/-- `is_ascii_lowercase`. -/
def isAsciiLowercase (b : Byte) : Bool := decide (97 ≤ b.val ∧ b.val ≤ 122)

/-- `is_ascii_digit`. -/
def isAsciiDigit (b : Byte) : Bool := decide (48 ≤ b.val ∧ b.val ≤ 57)

/-- `is_canonical_handle`. -/
def isCanonicalHandle (handle : Bytes) : Bool :=
  decide (3 ≤ handle.length ∧ handle.length ≤ 63)
    && handle.all fun b => isAsciiLowercase b || isAsciiDigit b

/-- The price of a handle in base prices, before it is halved. -/
def lengthFactor (length : ℕ) : ℤ :=
  if length = 3 then 128 else if length = 4 then 64 else if length = 5 then 16 else 2

/-- The price of a handle for one period, in base prices: half for one with a digit. -/
def handleFactor (handle : Bytes) : ℤ :=
  if handle.any isAsciiDigit then lengthFactor handle.length / 2 else lengthFactor handle.length

/-! ## The puzzle walks the bytes -/

/-- One byte as a signed integer. -/
theorem intFromBytes_singleton (b : Byte) :
    intFromBytes [b] = if b.val < 128 then (b.val : ℤ) else (b.val : ℤ) - 256 := by
  have hnat : natFromBytes [b] = b.val := by
    show 0 * 256 + b.val = b.val
    omega
  unfold intFromBytes
  rw [hnat]
  by_cases h : b.val < 128
  · rw [if_pos h, if_pos (by simpa using by omega)]
  · rw [if_neg h, if_neg (by simpa using by omega)]
    norm_num

/-- A byte read as a negative integer is neither a letter nor a digit. -/
theorem isAsciiLowercase_iff (b : Byte) :
    isAsciiLowercase b = true ↔ intFromBytes [b] > 97 - 1 ∧ intFromBytes [b] < 122 + 1 := by
  unfold isAsciiLowercase
  rw [intFromBytes_singleton, decide_eq_true_eq]
  have := b.isLt
  split <;> omega

theorem isAsciiDigit_iff (b : Byte) :
    isAsciiDigit b = true ↔ intFromBytes [b] > 48 - 1 ∧ intFromBytes [b] < 57 + 1 := by
  unfold isAsciiDigit
  rw [intFromBytes_singleton, decide_eq_true_eq]
  have := b.isLt
  split <;> omega

/-- **What the puzzle counts**: the digits, of a handle of letters and digits. -/
theorem countNumbersAndValidate_eq (handle : Bytes) :
    countNumbersAndValidate handle
      = if handle.all fun b => isAsciiLowercase b || isAsciiDigit b
          then some (handle.countP isAsciiDigit : ℤ) else none := by
  induction handle with
  | nil => rfl
  | cons b handle ih =>
    unfold countNumbersAndValidate
    rw [List.all_cons, ih]
    by_cases hletter : isAsciiLowercase b = true
    · have hdigit : ¬ isAsciiDigit b = true := by
        rw [isAsciiDigit_iff]
        have := (isAsciiLowercase_iff b).1 hletter
        omega
      rw [if_pos ((isAsciiLowercase_iff b).1 hletter), List.countP_cons_of_neg hdigit]
      simp [hletter]
    rw [if_neg fun h => hletter ((isAsciiLowercase_iff b).2 h)]
    by_cases hdigit : isAsciiDigit b = true
    · rw [decide_eq_true ((isAsciiDigit_iff b).1 hdigit), List.countP_cons_of_pos hdigit]
      cases hall : handle.all fun b => isAsciiLowercase b || isAsciiDigit b with
      | false => simp
      | true => simp [hdigit]
    · rw [decide_eq_false fun h => hdigit ((isAsciiDigit_iff b).2 h)]
      simp [hletter, hdigit]

/-- The puzzle's factor of the length, before it is halved. -/
theorem priceFactor_length (length : ℕ) :
    (if (length : ℤ) > 2 then
      (if (length : ℤ) > 4 then
        (if (length : ℤ) = 5 then some 16
        else if (length : ℤ) > 63 then none else some 2)
      else if (length : ℤ) = 3 then some 128 else some 64)
    else none) = if 3 ≤ length ∧ length ≤ 63 then some (lengthFactor length) else none := by
  unfold lengthFactor
  by_cases hshort : length < 3
  · rw [if_neg (by omega), if_neg (by omega)]
  by_cases hlong : 63 < length
  · rw [if_pos (by omega), if_pos (by omega), if_neg (by omega), if_pos (by omega),
      if_neg (by omega)]
  rw [if_pos (show (length : ℤ) > 2 by omega), if_pos (show 3 ≤ length ∧ length ≤ 63 by omega)]
  by_cases h3 : length = 3
  · rw [if_neg (by omega), if_pos (by omega), if_pos h3]
  by_cases h4 : length = 4
  · rw [if_neg (by omega), if_neg (by omega), if_neg h3, if_pos h4]
  rw [if_pos (show (length : ℤ) > 4 by omega), if_neg h3, if_neg h4]
  by_cases h5 : length = 5
  · rw [if_pos (by omega), if_pos h5]
  · rw [if_neg (by omega), if_neg (by omega), if_neg h5]

/-- The factor of the puzzle, by length and number of digits. -/
theorem getPriceFactor_eq (length digits : ℕ) :
    getPriceFactor length digits
      = if 3 ≤ length ∧ length ≤ 63
          then some (if digits = 0 then lengthFactor length else lengthFactor length / 2)
          else none := by
  unfold getPriceFactor
  rw [priceFactor_length]
  by_cases hlength : 3 ≤ length ∧ length ≤ 63
  · rw [if_pos hlength, if_pos hlength]
    show some (Int.fdiv _ _) = _
    by_cases hdigits : digits = 0
    · rw [if_pos (by exact_mod_cast hdigits), if_pos hdigits, Int.fdiv_one]
    · rw [if_neg (by exact_mod_cast hdigits), if_neg hdigits,
        Int.fdiv_eq_ediv_of_nonneg _ (by norm_num)]
  · rw [if_neg hlength, if_neg hlength]
    rfl

theorem handleFactor_eq (handle : Bytes) :
    (if handle.countP isAsciiDigit = 0 then lengthFactor handle.length
      else lengthFactor handle.length / 2) = handleFactor handle := by
  unfold handleFactor
  by_cases hdigit : handle.any isAsciiDigit = true
  · have hcount : handle.countP isAsciiDigit ≠ 0 := by
      intro h
      obtain ⟨b, hb, hd⟩ := List.any_eq_true.1 hdigit
      exact List.countP_eq_zero.1 h b hb hd
    rw [if_pos hdigit, if_neg hcount]
  · have hcount : handle.countP isAsciiDigit = 0 :=
      List.countP_eq_zero.2 fun b hb hd => hdigit (List.any_eq_true.2 ⟨b, hb, hd⟩)
    rw [if_neg hdigit, if_pos hcount]

/-- Without a positive number of periods there is no price. -/
theorem factorPricing_eq_none_of_unpaid {basePrice period : ℤ} {buyTime currentExpiration : Clvm}
    {handle numPeriods : Bytes} (h : ¬ 0 < intFromBytes numPeriods) :
    factorPricing basePrice period
      (.pair buyTime (.pair currentExpiration (.pair (.atom handle) (.atom numPeriods))))
        = none := by
  show (assertThat (decide (intFromBytes numPeriods > 0)) >>= _) = none
  rw [decide_eq_false h]
  rfl

/-- What is paid for is priced by the letters and the length of the handle. -/
theorem factorPricing_of_paid {basePrice period : ℤ} {buyTime currentExpiration : Clvm}
    {handle numPeriods : Bytes} (h : 0 < intFromBytes numPeriods) :
    factorPricing basePrice period
      (.pair buyTime (.pair currentExpiration (.pair (.atom handle) (.atom numPeriods))))
        = (countNumbersAndValidate handle).bind fun numbers =>
            (getPriceFactor handle.length numbers).map fun factor =>
              .pair (.ofInt (intFromBytes numPeriods * basePrice * factor))
                (.ofInt (intFromBytes numPeriods * period)) := by
  show (assertThat (decide (intFromBytes numPeriods > 0)) >>= _) = _
  rw [decide_eq_true h]
  show (countNumbersAndValidate handle >>= _) = _
  cases countNumbersAndValidate handle with
  | none => rfl
  | some numbers =>
    show (getPriceFactor handle.length numbers >>= _) = _
    cases hfactor : getPriceFactor handle.length numbers <;> simp [hfactor]

/-- **The puzzle prices a handle exactly if it is canonical** and paid for. -/
theorem factorPricing_eq_ite (basePrice period : ℤ) (buyTime currentExpiration : Clvm)
    (handle numPeriods : Bytes) :
    factorPricing basePrice period
        (.pair buyTime (.pair currentExpiration (.pair (.atom handle) (.atom numPeriods))))
      = if 0 < intFromBytes numPeriods ∧ isCanonicalHandle handle = true
          then some (.pair (.ofInt (intFromBytes numPeriods * basePrice * handleFactor handle))
            (.ofInt (intFromBytes numPeriods * period)))
          else none := by
  by_cases hpaid : 0 < intFromBytes numPeriods
  · rw [factorPricing_of_paid hpaid, countNumbersAndValidate_eq]
    unfold isCanonicalHandle
    cases hall : handle.all fun b => isAsciiLowercase b || isAsciiDigit b with
    | false => simp
    | true =>
      rw [if_pos rfl, Option.bind_some, getPriceFactor_eq, handleFactor_eq]
      by_cases hlength : 3 ≤ handle.length ∧ handle.length ≤ 63
      · simp [hlength, hpaid]
      · simp [hlength]
  · rw [factorPricing_eq_none_of_unpaid hpaid, if_neg fun h => hpaid h.1]

/-- Two periods of a handle with a digit. -/
example : factorPricing 10 366 (.pair .nil (.pair .nil (.pair (.atom [116, 101, 115, 116, 56])
    (.atom [2])))) = some (.pair (.ofInt 160) (.ofInt 732)) := by decide +kernel

end SlotMachine.Listener
