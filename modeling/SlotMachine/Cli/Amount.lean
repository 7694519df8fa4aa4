import Mathlib.Data.List.TakeWhile
import SlotMachine.Cli.Outcome
import SlotMachine.Listener.Cursor

/-!
# Amounts

An amount is given as a text with a point.  The part before it and the part behind it, which
is filled up with zeros, are read as numbers of their own.

* `parseAmount` — the reading (`utils.rs`).
* `plainDecimal` — the number that a text of digits and a point stands for.
* `Exact` — a text is read as this number of units, or refused.
* `exact_iff` — **when it is**: a text that is read has no sign, no digit but zero behind the
  last place, and fits into 64 bits.
-/

namespace SlotMachine.Cli

open Listener

/-! ## The reading -/

/-- The number of places of an amount. -/
def precision (isCat : Bool) : ℕ := if isCat then 3 else 12

/-- `fractional_per_whole`. -/
def fractionalPerWhole (isCat : Bool) : ℕ := if isCat then 1000 else 1000000000000

/-- `format!("{:0<width}")`. -/
def padZeros (width : ℕ) (s : List Char) : List Char :=
  s ++ List.replicate (width - s.length) '0'

/-- `parse_amount`. -/
def parseAmount (profile : Profile) (amount : String) (isCat : Bool) : Outcome ℕ :=
  if '.' ∉ amount.toList then .returned (.error .invalidAmount)
  else match splitOnce '.' amount.toList with
    | none => .returned (.error .invalidAmount)
    | some (whole, fractional) =>
        match parseU64 whole with
        | none => .returned (.error .invalidAmount)
        | some whole =>
            match parseU64 (padZeros (precision isCat) fractional) with
            | none => .returned (.error .invalidAmount)
            | some fractional =>
                if fractionalPerWhole isCat < fractional then .returned (.error .invalidAmount)
                else match profile.mul 64 whole (fractionalPerWhole isCat) with
                  | none => .panicked
                  | some product =>
                      match profile.add 64 product fractional with
                      | none => .panicked
                      | some amount => .returned (.ok amount)

/-! ## What an amount stands for -/

/-- The number that some digits stand for. -/
def digitsValue (s : List Char) : ℕ := Nat.ofDigitChars 10 s 0

/-- The number that the digits before a point and those behind it stand for. -/
def decimalValue (whole fractional : List Char) : ℚ :=
  digitsValue whole + digitsValue fractional / 10 ^ fractional.length

/-- The number that a plain decimal stands for: digits, and maybe a point with more of them. -/
def plainDecimal (s : List Char) : Option ℚ :=
  match splitOnce '.' s with
  | none => if s ≠ [] ∧ s.all Char.isDigit then some (digitsValue s) else none
  | some (whole, fractional) =>
      if whole ≠ [] ∧ whole.all Char.isDigit ∧ fractional.all Char.isDigit then
        some (decimalValue whole fractional)
      else none

/-- **A text is read exactly**: as its number of units, or it is refused. -/
def Exact (profile : Profile) (amount : String) (isCat : Bool) : Prop :=
  match parseAmount profile amount isCat with
  | .panicked => False
  | .returned (.error _) => True
  | .returned (.ok n) => n < 2 ^ 64 ∧
      ∃ q, plainDecimal amount.toList = some q ∧ q * fractionalPerWhole isCat = n

/-! ## Texts that are read -/

/-- The two parts of a text that is not refused, as numbers. -/
structure Accepted (amount : String) (isCat : Bool) (whole fractional : List Char) (w f : ℕ) :
    Prop where
  split : splitOnce '.' amount.toList = some (whole, fractional)
  whole_eq : parseU64 whole = some w
  fractional_eq : parseU64 (padZeros (precision isCat) fractional) = some f
  le : f ≤ fractionalPerWhole isCat

/-- The parts stand for the amount: none has a sign, no digit behind the last place counts,
and the amount fits. -/
structure Clean (isCat : Bool) (whole fractional : List Char) (w f : ℕ) : Prop where
  whole_unsigned : whole.head? ≠ some '+'
  fractional_unsigned : fractional.head? ≠ some '+'
  places : fractional.length ≤ precision isCat ∨ f = 0
  fits : w * fractionalPerWhole isCat + f < 2 ^ 64

section

variable {profile : Profile} {amount : String} {isCat : Bool} {whole fractional : List Char}
variable {w f : ℕ}

theorem fractionalPerWhole_eq (isCat : Bool) : fractionalPerWhole isCat = 10 ^ precision isCat := by
  cases isCat <;> rfl

theorem splitOnce_eq_none {c : Char} {s : List Char} : splitOnce c s = none ↔ c ∉ s := by
  unfold splitOnce
  cases hrest : s.dropWhile (· ≠ c) with
  | nil =>
      have hall := List.dropWhile_eq_nil_iff.1 hrest
      refine ⟨fun _ hmem => ?_, fun _ => rfl⟩
      simpa using hall c hmem
  | cons d rest =>
      have hnot : ¬ (d ≠ c) := by
        have hhead := List.head?_dropWhile_not (· ≠ c) s
        rw [hrest] at hhead
        simpa using hhead
      have hmem : d ∈ s := (List.dropWhile_suffix _).subset (hrest ▸ List.mem_cons_self)
      refine ⟨nofun, fun h => absurd hmem ?_⟩
      rwa [not_not.1 hnot]

/-- What is done with the two numbers of a text. -/
theorem Accepted.parseAmount_eq (h : Accepted amount isCat whole fractional w f) :
    parseAmount profile amount isCat = match profile.mul 64 w (fractionalPerWhole isCat) with
      | none => .panicked
      | some product =>
          match profile.add 64 product f with
          | none => .panicked
          | some amount => .returned (.ok amount) := by
  have hpoint : ¬ '.' ∉ amount.toList := by
    rw [← splitOnce_eq_none, h.split]
    exact nofun
  unfold parseAmount
  simp only [if_neg hpoint, h.split, h.whole_eq, h.fractional_eq, if_neg (not_lt.2 h.le)]

/-- Every other text is refused. -/
theorem parseAmount_refused
    (h : ∀ whole fractional w f, ¬ Accepted amount isCat whole fractional w f) :
    parseAmount profile amount isCat = .returned (.error .invalidAmount) := by
  unfold parseAmount
  split
  · rfl
  cases hsplit : splitOnce '.' amount.toList with
  | none => rfl
  | some parts =>
      obtain ⟨whole, fractional⟩ := parts
      dsimp only
      cases hwhole : parseU64 whole with
      | none => rfl
      | some w =>
          dsimp only
          cases hfractional : parseU64 (padZeros (precision isCat) fractional) with
          | none => rfl
          | some f =>
              dsimp only
              split
              · rfl
              · next hle =>
                  refine absurd ?_ (h whole fractional w f)
                  exact ⟨hsplit, hwhole, hfractional, not_lt.1 hle⟩

/-- An amount that fits is returned. -/
theorem Accepted.returned (h : Accepted amount isCat whole fractional w f)
    (hfits : w * fractionalPerWhole isCat + f < 2 ^ 64) :
    parseAmount profile amount isCat
      = .returned (.ok (w * fractionalPerWhole isCat + f)) := by
  rw [h.parseAmount_eq, Profile.mul_of_lt (by omega)]
  dsimp only
  rw [Profile.add_of_lt hfits]

/-! ## Texts of digits -/

theorem unsigned_eq_self {s : List Char} (h : s.head? ≠ some '+') : unsigned s = s := by
  unfold unsigned
  split
  · exact absurd rfl h
  · rfl

theorem head?_ne_plus {s : List Char} (h : s.all Char.isDigit) : s.head? ≠ some '+' := by
  cases s with
  | nil => exact nofun
  | cons c s =>
      intro hplus
      obtain rfl := Option.some.inj hplus
      exact absurd (List.all_eq_true.1 h '+' List.mem_cons_self) (by decide)

/-- A number without a sign is read from its digits. -/
theorem digits_of_parseU64 {s : List Char} {v : ℕ} (hsign : s.head? ≠ some '+')
    (h : parseU64 s = some v) : s ≠ [] ∧ s.all Char.isDigit ∧ v = digitsValue s ∧ v < 2 ^ 64 := by
  unfold parseU64 at h
  rw [unsigned_eq_self hsign] at h
  dsimp only at h
  split at h
  · next hdigits =>
      obtain rfl := Option.some.inj h
      exact ⟨hdigits.1, hdigits.2.1, rfl, hdigits.2.2⟩
  · cases h

theorem digitsValue_padZeros (width : ℕ) (s : List Char) :
    digitsValue (padZeros width s) = digitsValue s * 10 ^ (width - s.length) := by
  unfold digitsValue padZeros
  rw [Nat.ofDigitChars_append, Nat.ofDigitChars_replicate_zero, mul_comm]

theorem precision_pos (isCat : Bool) : 0 < precision isCat := by
  cases isCat <;> decide

theorem head?_padZeros {s : List Char} (h : s.head? ≠ some '+') :
    (padZeros (precision isCat) s).head? ≠ some '+' := by
  cases s with
  | nil =>
      have hpad : padZeros (precision isCat) [] = List.replicate (precision isCat) '0' := rfl
      rw [hpad, List.head?_replicate, if_neg (precision_pos isCat).ne']
      decide
  | cons c s => exact h

/-- Filling up a fraction of digits adds digits. -/
theorem all_isDigit_of_padZeros {width : ℕ} {s : List Char}
    (h : (padZeros width s).all Char.isDigit) : s.all Char.isDigit := by
  unfold padZeros at h
  rw [List.all_append, Bool.and_eq_true] at h
  exact h.1

/-- **Without signs, the two numbers are those of the digits.** -/
structure Read (isCat : Bool) (whole fractional : List Char) (w f : ℕ) : Prop where
  whole_ne : whole ≠ []
  whole_digits : whole.all Char.isDigit
  fractional_digits : fractional.all Char.isDigit
  whole_eq : w = digitsValue whole
  fractional_eq : f = digitsValue fractional * 10 ^ (precision isCat - fractional.length)

theorem Accepted.read (h : Accepted amount isCat whole fractional w f)
    (hwhole : whole.head? ≠ some '+') (hfractional : fractional.head? ≠ some '+') :
    Read isCat whole fractional w f := by
  obtain ⟨hne, hdigits, hw, -⟩ := digits_of_parseU64 hwhole h.whole_eq
  obtain ⟨-, hpadded, hf, -⟩ := digits_of_parseU64 (head?_padZeros hfractional) h.fractional_eq
  refine ⟨hne, hdigits, all_isDigit_of_padZeros hpadded, hw, ?_⟩
  rw [hf, digitsValue_padZeros]

theorem Accepted.plainDecimal_eq (h : Accepted amount isCat whole fractional w f)
    (hread : Read isCat whole fractional w f) :
    plainDecimal amount.toList = some (decimalValue whole fractional) := by
  unfold plainDecimal
  rw [h.split]
  exact if_pos ⟨hread.whole_ne, hread.whole_digits, hread.fractional_digits⟩

/-- A text that stands for a number has no sign. -/
theorem Accepted.unsigned_of_plainDecimal (h : Accepted amount isCat whole fractional w f) {q : ℚ}
    (hq : plainDecimal amount.toList = some q) :
    whole.head? ≠ some '+' ∧ fractional.head? ≠ some '+' := by
  unfold plainDecimal at hq
  rw [h.split] at hq
  dsimp only at hq
  split at hq
  · next hdigits => exact ⟨head?_ne_plus hdigits.2.1, head?_ne_plus hdigits.2.2⟩
  · cases hq

/-! ## Exact amounts -/

/-- **The number of units is the value**, exactly if no digit behind the last place counts. -/
theorem Read.units_iff (h : Read isCat whole fractional w f) :
    (decimalValue whole fractional * fractionalPerWhole isCat
        = (w * fractionalPerWhole isCat + f : ℕ)) ↔
      fractional.length ≤ precision isCat ∨ f = 0 := by
  have hpow : (10 : ℚ) ^ fractional.length ≠ 0 := by positivity
  -- the parts before the point agree
  have hcross : (decimalValue whole fractional * fractionalPerWhole isCat
        = (w * fractionalPerWhole isCat + f : ℕ)) ↔
      digitsValue fractional * 10 ^ precision isCat = f * 10 ^ fractional.length := by
    unfold decimalValue
    rw [h.whole_eq, fractionalPerWhole_eq]
    push_cast
    rw [add_mul, add_right_inj, div_mul_eq_mul_div, div_eq_iff hpow]
    exact_mod_cast Iff.rfl
  rw [hcross]
  by_cases hplaces : fractional.length ≤ precision isCat
  · refine iff_of_true ?_ (Or.inl hplaces)
    rw [h.fractional_eq, mul_assoc, ← pow_add, Nat.sub_add_cancel hplaces]
  · have hf : f = digitsValue fractional := by
      rw [h.fractional_eq, Nat.sub_eq_zero_of_le (not_le.1 hplaces).le, pow_zero, mul_one]
    have hlt : 10 ^ precision isCat < 10 ^ fractional.length :=
      Nat.pow_lt_pow_right (by decide) (not_le.1 hplaces)
    rw [← hf]
    constructor
    · intro heq
      refine Or.inr (by_contra fun hne => hlt.ne ?_)
      exact Nat.eq_of_mul_eq_mul_left (Nat.pos_of_ne_zero hne) heq
    · rintro (hle | hzero)
      · exact absurd hle hplaces
      · rw [hzero, zero_mul, zero_mul]

/-- An amount that does not fit is not returned exactly, in either profile. -/
theorem Accepted.not_exact_of_overflow (h : Accepted amount isCat whole fractional w f)
    (hoverflow : 2 ^ 64 ≤ w * fractionalPerWhole isCat + f) : ¬ Exact profile amount isCat := by
  intro hexact
  unfold Exact at hexact
  rw [h.parseAmount_eq] at hexact
  have hf : f < 2 ^ 64 := by
    have hle := h.le
    have hunit : fractionalPerWhole isCat < 2 ^ 64 := by cases isCat <;> decide
    omega
  -- what is returned is less than the whole part alone
  have hwrapped : ∃ n : ℕ, (n < w * fractionalPerWhole isCat) ∧ n < 2 ^ 64 ∧
      ∃ q, plainDecimal amount.toList = some q ∧ q * fractionalPerWhole isCat = n := by
    cases profile with
    | dev =>
        unfold Profile.mul Profile.add at hexact
        by_cases hmul : w * fractionalPerWhole isCat < 2 ^ 64
        · simp only [if_pos hmul, if_neg (not_lt.2 hoverflow)] at hexact
        · simp only [if_neg hmul] at hexact
    | release =>
        unfold Profile.mul Profile.add at hexact
        by_cases hmul : w * fractionalPerWhole isCat < 2 ^ 64
        · simp only [if_pos hmul, if_neg (not_lt.2 hoverflow)] at hexact
          refine ⟨_, ?_, hexact.1, hexact.2⟩
          omega
        · simp only [if_neg hmul] at hexact
          by_cases hadd : w * fractionalPerWhole isCat % 2 ^ 64 + f < 2 ^ 64
          · simp only [if_pos hadd] at hexact
            exact ⟨_, hexact.1.trans_le (not_lt.1 hmul), hexact.1, hexact.2⟩
          · simp only [if_neg hadd] at hexact
            exact ⟨_, hexact.1.trans_le (not_lt.1 hmul), hexact.1, hexact.2⟩
  obtain ⟨n, hn, -, q, hq, hvalue⟩ := hwrapped
  obtain ⟨hwhole, hfractional⟩ := h.unsigned_of_plainDecimal hq
  have hread := h.read hwhole hfractional
  rw [h.plainDecimal_eq hread, Option.some.injEq] at hq
  have hle : (w * fractionalPerWhole isCat : ℚ) ≤ q * fractionalPerWhole isCat := by
    refine mul_le_mul_of_nonneg_right ?_ (Nat.cast_nonneg _)
    rw [← hq, hread.whole_eq]
    unfold decimalValue
    exact le_add_of_nonneg_right (by positivity)
  rw [hvalue] at hle
  exact absurd hn (not_lt.2 (by exact_mod_cast hle))

end

/-- **When a text is read exactly**: if it is not refused, it has no sign, no digit but zero
behind the last place, and fits into 64 bits. -/
theorem exact_iff (profile : Profile) (amount : String) (isCat : Bool) :
    Exact profile amount isCat ↔ ∀ whole fractional w f,
      Accepted amount isCat whole fractional w f → Clean isCat whole fractional w f := by
  constructor
  · intro hexact whole fractional w f h
    have hfits : w * fractionalPerWhole isCat + f < 2 ^ 64 := by
      by_contra hoverflow
      exact h.not_exact_of_overflow (not_lt.1 hoverflow) hexact
    unfold Exact at hexact
    rw [h.returned hfits] at hexact
    obtain ⟨-, q, hq, hvalue⟩ := hexact
    obtain ⟨hwhole, hfractional⟩ := h.unsigned_of_plainDecimal hq
    have hread := h.read hwhole hfractional
    rw [h.plainDecimal_eq hread, Option.some.injEq] at hq
    rw [← hq] at hvalue
    exact ⟨hwhole, hfractional, hread.units_iff.1 hvalue, hfits⟩
  · intro hclean
    by_cases haccepted : ∃ whole fractional w f, Accepted amount isCat whole fractional w f
    · obtain ⟨whole, fractional, w, f, h⟩ := haccepted
      obtain ⟨hwhole, hfractional, hplaces, hfits⟩ := hclean whole fractional w f h
      have hread := h.read hwhole hfractional
      unfold Exact
      rw [h.returned hfits]
      exact ⟨hfits, _, h.plainDecimal_eq hread, hread.units_iff.2 hplaces⟩
    · push Not at haccepted
      unfold Exact
      rw [parseAmount_refused haccepted]
      trivial

/-- **Four places of a CAT**: a tenth of a unit is read as one. -/
theorem exact_fails : parseAmount .release "0.0001" true = .returned (.ok 1) ∧
    plainDecimal "0.0001".toList = some (1 / 10000) ∧ ¬ Exact .release "0.0001" true := by
  have hread : parseAmount .release "0.0001" true = .returned (.ok 1) := by decide +kernel
  have hvalue : plainDecimal "0.0001".toList = some (1 / 10000) := by decide +kernel
  refine ⟨hread, hvalue, fun hexact => ?_⟩
  unfold Exact at hexact
  rw [hread, hvalue] at hexact
  obtain ⟨-, q, hq, hunits⟩ := hexact
  obtain rfl := Option.some.inj hq
  norm_num [fractionalPerWhole] at hunits

/-- Amounts with few and with many places. -/
example : parseAmount .release "1.01" false = .returned (.ok 1010000000000) ∧
    parseAmount .release "1.1000" true = .returned (.ok 2000) ∧
    parseAmount .dev "18446744.073709551616" false = .panicked := by
  decide +kernel

end SlotMachine.Cli
