import Mathlib.Data.Nat.Bitwise
import Mathlib.Tactic

/-!
# Fixed-point products

A value is scaled by some of a list of factors, each in units of one over a precision:
bit by bit, lowest first, a number says by which ones.  After every factor the value is
rounded down.

* `scaled` — the rounded product, and `product`, the exact one; `scaled_le_product` and
  `product_le_scaled` say that **they differ by at most one for each factor**.
* `Carries` — every factor is at most the product of those below it, so that a carry
  does not raise the exact product: `product_le_of_lt`.
* `halved` — a start value that is halved every period, and scaled within one;
  `halved_le_add` says **how far rounding can raise it** over time.
-/

namespace SlotMachine.FixedPoint

/-! ## Products by the bits of a number -/

/-- Scale by the factor of every set bit, and round down each time. -/
def scaled (precision : ℕ) : List ℕ → (fraction value : ℕ) → ℕ
  | [], _, value => value
  | factor :: factors, fraction, value =>
      scaled precision factors (fraction / 2)
        (if fraction % 2 = 1 then value * factor / precision else value)

/-- The exact product of the factors of the set bits. -/
def product (precision : ℕ) : List ℕ → (fraction : ℕ) → ℚ
  | [], _ => 1
  | factor :: factors, fraction =>
      (if fraction % 2 = 1 then (factor / precision : ℚ) else 1)
        * product precision factors (fraction / 2)

/-- A bit of a number, found with a mask. -/
theorem and_two_pow_ne_zero (fraction i : ℕ) :
    fraction &&& 2 ^ i ≠ 0 ↔ fraction / 2 ^ i % 2 = 1 := by
  rw [Nat.and_two_pow, Nat.testBit_eq_decide_div_mod_eq]
  have hpow : 0 < 2 ^ i := by positivity
  by_cases hbit : fraction / 2 ^ i % 2 = 1
  · simp [hbit]
  · simp [hbit]

/-- The number of set bits among the lowest ones. -/
def setBits : (bits fraction : ℕ) → ℕ
  | 0, _ => 0
  | bits + 1, fraction => fraction % 2 + setBits bits (fraction / 2)

section

variable {precision : ℕ} {factors : List ℕ}

theorem scaled_le (h : ∀ b ∈ factors, b ≤ precision) (fraction value : ℕ) :
    scaled precision factors fraction value ≤ value := by
  induction factors generalizing fraction value with
  | nil => exact le_rfl
  | cons b bs ih =>
    have hstep : (if fraction % 2 = 1 then value * b / precision else value) ≤ value := by
      split
      · exact Nat.div_le_of_le_mul (by
          rw [Nat.mul_comm]
          exact Nat.mul_le_mul_right value (h b List.mem_cons_self))
      · exact le_rfl
    exact (ih (fun b hb => h b (List.mem_cons_of_mem _ hb)) (fraction / 2) _).trans hstep

theorem product_nonneg (fraction : ℕ) : 0 ≤ product precision factors fraction := by
  induction factors generalizing fraction with
  | nil => exact zero_le_one
  | cons b bs ih =>
    refine mul_nonneg ?_ (ih _)
    split
    · positivity
    · exact zero_le_one

theorem factor_le_one {b : ℕ} (h : b ≤ precision) : (b / precision : ℚ) ≤ 1 :=
  div_le_one_of_le₀ (by exact_mod_cast h) (Nat.cast_nonneg precision)

theorem product_le_one (h : ∀ b ∈ factors, b ≤ precision) (fraction : ℕ) :
    product precision factors fraction ≤ 1 := by
  induction factors generalizing fraction with
  | nil => exact le_rfl
  | cons b bs ih =>
    refine mul_le_one₀ ?_ (product_nonneg _) (ih (fun b hb => h b (List.mem_cons_of_mem _ hb)) _)
    split
    · exact factor_le_one (h b List.mem_cons_self)
    · exact le_rfl

/-- **Rounding down loses something.** -/
theorem scaled_le_product (fraction value : ℕ) :
    (scaled precision factors fraction value : ℚ)
      ≤ value * product precision factors fraction := by
  induction factors generalizing fraction value with
  | nil => exact (mul_one (value : ℚ)).ge
  | cons b bs ih =>
    unfold scaled product
    refine (ih _ _).trans ?_
    rw [← mul_assoc]
    refine mul_le_mul_of_nonneg_right ?_ (product_nonneg _)
    split
    · have hdiv : ((value * b / precision : ℕ) : ℚ) ≤ (value * b : ℕ) / (precision : ℚ) :=
        Nat.cast_div_le
      push_cast at hdiv
      rwa [mul_div_assoc] at hdiv
    · exact (mul_one (value : ℚ)).ge

/-- **It loses at most one for each factor.** -/
theorem product_le_scaled (hprecision : 0 < precision) (h : ∀ b ∈ factors, b ≤ precision)
    (fraction value : ℕ) :
    value * product precision factors fraction
      ≤ scaled precision factors fraction value + setBits factors.length fraction := by
  induction factors generalizing fraction value with
  | nil => simp [product, scaled, setBits]
  | cons b bs ih =>
    have hbs : ∀ b ∈ bs, b ≤ precision := fun b hb => h b (List.mem_cons_of_mem _ hb)
    unfold scaled product
    rw [List.length_cons]
    unfold setBits
    by_cases hbit : fraction % 2 = 1
    · rw [if_pos hbit, if_pos hbit, hbit]
      have hrest := ih hbs (fraction / 2) (value * b / precision)
      have hfloor : (value * (b / precision) : ℚ) ≤ (value * b / precision : ℕ) + 1 := by
        have hlt : value * b ≤ (value * b / precision + 1) * precision := by
          rw [Nat.mul_comm _ precision]
          exact (Nat.lt_mul_div_succ (value * b) hprecision).le
        rw [← mul_div_assoc, div_le_iff₀ (by exact_mod_cast hprecision)]
        exact_mod_cast hlt
      have hp0 : 0 ≤ product precision bs (fraction / 2) := product_nonneg _
      have hp1 := product_le_one hbs (fraction / 2)
      push_cast
      nlinarith
    · have hzero : fraction % 2 = 0 := by omega
      rw [if_neg hbit, if_neg hbit, hzero, one_mul, zero_add]
      exact ih hbs (fraction / 2) value

end

/-! ## Carries -/

/-- Every factor is at most the product of those below it, times `gap`, and `lower` is at
most the product of all of them, times `gap`. -/
def Carries (precision : ℕ) (lower : ℚ) : (gap : ℚ) → List ℕ → Prop
  | gap, [] => lower ≤ gap
  | gap, factor :: factors =>
      (factor / precision : ℚ) ≤ gap ∧ Carries precision lower (gap * (factor / precision)) factors

section

variable {precision : ℕ} {lower gap : ℚ} {factors : List ℕ}

/-- **A larger number has a smaller product.** -/
theorem product_le_of_lt (hle : ∀ b ∈ factors, b ≤ precision)
    (h : Carries precision lower gap factors) {f g : ℕ} (hfg : f < g)
    (hg : g < 2 ^ factors.length) :
    product precision factors g ≤ gap * product precision factors f := by
  induction factors generalizing gap f g with
  | nil =>
    rw [List.length_nil, pow_zero] at hg
    omega
  | cons b bs ih =>
    obtain ⟨hb, hbs⟩ := h
    have hlebs : ∀ b ∈ bs, b ≤ precision := fun b hb => hle b (List.mem_cons_of_mem _ hb)
    have hb0 : (0 : ℚ) ≤ b / precision := by positivity
    have hb1 : (b / precision : ℚ) ≤ 1 := factor_le_one (hle b List.mem_cons_self)
    have hf0 : 0 ≤ product precision bs (f / 2) := product_nonneg _
    have hg0 : 0 ≤ product precision bs (g / 2) := product_nonneg _
    rw [List.length_cons, pow_succ] at hg
    unfold product
    rcases Nat.lt_or_ge (f / 2) (g / 2) with hhalf | hhalf
    · -- the lowest bit cannot make up for a carry
      have hrest := ih hlebs hbs hhalf (by omega)
      have hgap : 0 ≤ gap := hb0.trans hb
      have hgbit : (if g % 2 = 1 then (b / precision : ℚ) else 1) ≤ 1 := by
        split
        · exact hb1
        · exact le_rfl
      have hfbit : (b / precision : ℚ) ≤ if f % 2 = 1 then (b / precision : ℚ) else 1 := by
        split
        · exact le_rfl
        · exact hb1
      calc (if g % 2 = 1 then (b / precision : ℚ) else 1) * product precision bs (g / 2)
          ≤ 1 * product precision bs (g / 2) := mul_le_mul_of_nonneg_right hgbit hg0
        _ = product precision bs (g / 2) := one_mul _
        _ ≤ gap * (b / precision) * product precision bs (f / 2) := hrest
        _ = gap * ((b / precision) * product precision bs (f / 2)) := mul_assoc _ _ _
        _ ≤ gap * ((if f % 2 = 1 then (b / precision : ℚ) else 1)
            * product precision bs (f / 2)) :=
          mul_le_mul_of_nonneg_left (mul_le_mul_of_nonneg_right hfbit hf0) hgap
    · -- only the lowest bit differs
      have heq : f / 2 = g / 2 := by omega
      have hfbit : f % 2 ≠ 1 := by omega
      have hgbit : g % 2 = 1 := by omega
      rw [if_neg hfbit, if_pos hgbit, heq, one_mul]
      exact mul_le_mul_of_nonneg_right hb hg0

theorem product_antitone (hle : ∀ b ∈ factors, b ≤ precision)
    (h : Carries precision lower 1 factors) {f g : ℕ} (hfg : f ≤ g)
    (hg : g < 2 ^ factors.length) :
    product precision factors g ≤ product precision factors f := by
  rcases Nat.lt_or_eq_of_le hfg with hlt | rfl
  · have := product_le_of_lt hle h hlt hg
    rwa [one_mul] at this
  · exact le_rfl

/-- No product is below `lower`. -/
theorem lower_le_product (hle : ∀ b ∈ factors, b ≤ precision)
    (h : Carries precision lower gap factors) (hgap : 0 ≤ gap) (f : ℕ) :
    lower ≤ gap * product precision factors f := by
  induction factors generalizing gap f with
  | nil =>
    rw [product, mul_one]
    exact h
  | cons b bs ih =>
    obtain ⟨-, hbs⟩ := h
    have hb0 : (0 : ℚ) ≤ b / precision := by positivity
    have hfbit : (b / precision : ℚ) ≤ if f % 2 = 1 then (b / precision : ℚ) else 1 := by
      split
      · exact le_rfl
      · exact factor_le_one (hle b List.mem_cons_self)
    calc lower
        ≤ gap * (b / precision) * product precision bs (f / 2) :=
          ih (fun b hb => hle b (List.mem_cons_of_mem _ hb)) hbs (mul_nonneg hgap hb0) (f / 2)
      _ = gap * ((b / precision) * product precision bs (f / 2)) := mul_assoc _ _ _
      _ ≤ gap * product precision (b :: bs) f :=
          mul_le_mul_of_nonneg_left (mul_le_mul_of_nonneg_right hfbit (product_nonneg _)) hgap

end

/-! ## Halving -/

/-- A start value, halved for every period and scaled within one. -/
def halved (precision start : ℕ) (factors : List ℕ) (periods fraction : ℕ) : ℕ :=
  scaled precision factors fraction (start / 2 ^ periods)

section

variable {precision start : ℕ} {factors : List ℕ}

theorem halved_le (h : ∀ b ∈ factors, b ≤ precision) (periods fraction : ℕ) :
    halved precision start factors periods fraction ≤ start / 2 ^ periods :=
  scaled_le h _ _

/-- The exact value. -/
def exactlyHalved (precision start : ℕ) (factors : List ℕ) (periods fraction : ℕ) : ℚ :=
  start / 2 ^ periods * product precision factors fraction

theorem halved_le_exactly (periods fraction : ℕ) :
    (halved precision start factors periods fraction : ℚ)
      ≤ exactlyHalved precision start factors periods fraction := by
  have hstart : ((start / 2 ^ periods : ℕ) : ℚ) ≤ start / 2 ^ periods := by
    refine Nat.cast_div_le.trans ?_
    push_cast
    exact le_rfl
  exact (scaled_le_product _ _).trans (mul_le_mul_of_nonneg_right hstart (product_nonneg _))

theorem exactly_lt_halved (hprecision : 0 < precision) (h : ∀ b ∈ factors, b ≤ precision)
    (periods fraction : ℕ) :
    exactlyHalved precision start factors periods fraction
      < halved precision start factors periods fraction + setBits factors.length fraction + 1 := by
  have hscaled := product_le_scaled hprecision h fraction (start / 2 ^ periods)
  have hp0 : 0 ≤ product precision factors fraction := product_nonneg _
  have hp1 := product_le_one h fraction
  have hstart : (start / 2 ^ periods : ℚ) < (start / 2 ^ periods : ℕ) + 1 := by
    have hlt : start < (start / 2 ^ periods + 1) * 2 ^ periods := by
      rw [Nat.mul_comm]
      exact Nat.lt_mul_div_succ start (by positivity)
    rw [div_lt_iff₀ (by positivity)]
    exact_mod_cast hlt
  unfold exactlyHalved halved
  have hcase : (start / 2 ^ periods : ℚ) * product precision factors fraction
      ≤ (start / 2 ^ periods : ℕ) * product precision factors fraction
        + (start / 2 ^ periods - (start / 2 ^ periods : ℕ) : ℚ) := by
    have hdiff : (0 : ℚ) ≤ start / 2 ^ periods - (start / 2 ^ periods : ℕ) := by
      have hle : ((start / 2 ^ periods : ℕ) : ℚ) ≤ start / 2 ^ periods := by
        refine Nat.cast_div_le.trans ?_
        push_cast
        exact le_rfl
      linarith
    nlinarith
  linarith

/-- The exact value falls, period after period and within each. -/
theorem exactlyHalved_antitone (hle : ∀ b ∈ factors, b ≤ precision)
    (h : Carries precision (1 / 2) 1 factors) {k l f g : ℕ}
    (hkl : k < l ∨ k = l ∧ f ≤ g) (hg : g < 2 ^ factors.length) :
    exactlyHalved precision start factors l g ≤ exactlyHalved precision start factors k f := by
  unfold exactlyHalved
  have hg1 := product_le_one hle g
  rcases hkl with hlt | ⟨rfl, hfg⟩
  · -- a whole period halves, and within one nothing falls below a half
    have hlower := lower_le_product hle h zero_le_one f
    rw [one_mul] at hlower
    have hpow : (start / 2 ^ l : ℚ) ≤ start / 2 ^ k * (1 / 2) := by
      rw [div_mul_div_comm, mul_one, ← pow_succ]
      exact div_le_div_of_nonneg_left (Nat.cast_nonneg _) (by positivity)
        (pow_le_pow_right₀ one_le_two hlt)
    calc (start / 2 ^ l : ℚ) * product precision factors g
        ≤ start / 2 ^ l * 1 := mul_le_mul_of_nonneg_left hg1 (by positivity)
      _ = start / 2 ^ l := mul_one _
      _ ≤ start / 2 ^ k * (1 / 2) := hpow
      _ ≤ start / 2 ^ k * product precision factors f :=
          mul_le_mul_of_nonneg_left hlower (by positivity)
  · exact mul_le_mul_of_nonneg_left (product_antitone hle h hfg hg) (by positivity)

/-- **Rounding raises the value by at most one for each set bit** of the earlier instant. -/
theorem halved_le_add (hprecision : 0 < precision) (hle : ∀ b ∈ factors, b ≤ precision)
    (h : Carries precision (1 / 2) 1 factors) {k l f g : ℕ}
    (hkl : k < l ∨ k = l ∧ f ≤ g) (hg : g < 2 ^ factors.length) :
    halved precision start factors l g
      ≤ halved precision start factors k f + setBits factors.length f := by
  have hlater : _ ≤ exactlyHalved precision start factors l g := halved_le_exactly l g
  have hexact : _ ≤ exactlyHalved precision start factors k f :=
    exactlyHalved_antitone hle h hkl hg
  have hearlier : exactlyHalved precision start factors k f < _ :=
    exactly_lt_halved hprecision hle k f
  have hlt : (halved precision start factors l g : ℚ)
      < halved precision start factors k f + setBits factors.length f + 1 :=
    (hlater.trans hexact).trans_lt hearlier
  exact Nat.lt_succ_iff.1 (by exact_mod_cast hlt)

end

end SlotMachine.FixedPoint
