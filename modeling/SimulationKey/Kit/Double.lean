import Mathlib

/-!
# Doubles

The quotient of two integers as a `float64` has it: the exact one rounded once,
to 53 bits and to even. Up to `2 ^ 53` it is on the same side of every integer
as the exact quotient.
-/

namespace SimulationKey.Kit

/-! ## Rounding -/

/-- The nearest integer, the even one of two. -/
def roundHalfEven (q : ℚ) : ℤ :=
  if q - ⌊q⌋ < 1 / 2 then ⌊q⌋
  else if 1 / 2 < q - ⌊q⌋ then ⌊q⌋ + 1
  else if ⌊q⌋ % 2 = 0 then ⌊q⌋
  else ⌊q⌋ + 1

/-- The distance of the doubles around `q`. -/
def ulp (q : ℚ) : ℚ := 2 ^ (Int.log 2 q - 52)

/-- The double nearest to `q`, for a `q` whose exponent a double can have. -/
def nearestDouble (q : ℚ) : ℚ := roundHalfEven (q / ulp q) * ulp q

/-- `a / b` of two integers, rounded once. -/
def trueDiv (a b : Nat) : ℚ := nearestDouble (a / b)

theorem le_roundHalfEven {k : ℤ} {q : ℚ} (h : (k : ℚ) ≤ q) : k ≤ roundHalfEven q := by
  have hfloor : k ≤ ⌊q⌋ := Int.le_floor.mpr h
  unfold roundHalfEven
  split_ifs <;> omega

theorem roundHalfEven_le {k : ℤ} {q : ℚ} (h : q ≤ k) : roundHalfEven q ≤ k := by
  have hfloor : ⌊q⌋ ≤ k := by exact_mod_cast (Int.floor_le q).trans h
  have hnext : ¬ (q - ⌊q⌋ < 1 / 2) → ⌊q⌋ + 1 ≤ k := by
    intro hhalf
    by_contra hlt
    have heq : ⌊q⌋ = k := by omega
    rw [heq] at hhalf
    have : q - k ≤ 0 := by linarith
    linarith
  unfold roundHalfEven
  split_ifs with h₁ h₂ h₃
  · exact hfloor
  · exact hnext h₁
  · exact hfloor
  · exact hnext h₁

theorem roundHalfEven_near (q : ℚ) : |(roundHalfEven q : ℚ) - q| ≤ 1 / 2 := by
  have hle := Int.floor_le q
  have hlt := Int.lt_floor_add_one q
  rw [abs_le]
  unfold roundHalfEven
  split_ifs with h₁ h₂ h₃ <;> push_cast <;> constructor <;> linarith

/-! ## The doubles around a number -/

theorem ulp_pos (q : ℚ) : 0 < ulp q := by
  unfold ulp
  positivity

theorem ulp_mul (q : ℚ) : ulp q * 2 ^ 52 = 2 ^ Int.log 2 q := by
  unfold ulp
  rw [← zpow_natCast, ← zpow_add₀ (by norm_num)]
  congr 1
  push_cast
  ring

/-- Below `2 ^ 53` every integer is a double. -/
theorem grid {q : ℚ} (hlog : Int.log 2 q ≤ 52) (k : ℤ) : ∃ j : ℤ, (k : ℚ) / ulp q = j := by
  refine ⟨k * 2 ^ (52 - Int.log 2 q).toNat, ?_⟩
  have hpow : ((2 : ℚ) ^ (52 - Int.log 2 q).toNat) * ulp q = 1 := by
    unfold ulp
    rw [← zpow_natCast, ← zpow_add₀ (by norm_num), Int.toNat_of_nonneg (by omega)]
    have : (52 - Int.log 2 q) + (Int.log 2 q - 52) = 0 := by ring
    rw [this, zpow_zero]
  rw [div_eq_iff (ulp_pos q).ne']
  push_cast
  rw [mul_assoc, hpow, mul_one]

theorem nearestDouble_le {q : ℚ} (hlog : Int.log 2 q ≤ 52) {k : ℤ} (h : q ≤ k) :
    nearestDouble q ≤ k := by
  obtain ⟨j, hj⟩ := grid hlog k
  have hle : q / ulp q ≤ j := by
    rw [← hj]
    exact div_le_div_of_nonneg_right h (ulp_pos q).le
  have hround : (roundHalfEven (q / ulp q) : ℚ) ≤ j := by exact_mod_cast roundHalfEven_le hle
  rw [← hj, le_div_iff₀ (ulp_pos q)] at hround
  exact hround

theorem le_nearestDouble {q : ℚ} (hlog : Int.log 2 q ≤ 52) {k : ℤ} (h : (k : ℚ) ≤ q) :
    k ≤ nearestDouble q := by
  obtain ⟨j, hj⟩ := grid hlog k
  have hle : (j : ℚ) ≤ q / ulp q := by
    rw [← hj]
    exact div_le_div_of_nonneg_right h (ulp_pos q).le
  have hround : (j : ℚ) ≤ roundHalfEven (q / ulp q) := by exact_mod_cast le_roundHalfEven hle
  rw [← hj, div_le_iff₀ (ulp_pos q)] at hround
  exact hround

/-- Rounding moves a number by half the distance of the doubles at most. -/
theorem nearestDouble_near (q : ℚ) : |nearestDouble q - q| ≤ ulp q / 2 := by
  have hu := ulp_pos q
  have hscale : nearestDouble q - q = (roundHalfEven (q / ulp q) - q / ulp q) * ulp q := by
    unfold nearestDouble
    field_simp
  rw [hscale, abs_mul, abs_of_pos hu]
  have hnear := roundHalfEven_near (q / ulp q)
  nlinarith

theorem nearestDouble_two_pow (e : ℤ) : nearestDouble (2 ^ e) = 2 ^ e := by
  have hlog : Int.log 2 ((2 : ℚ) ^ e) = e := by
    have := Int.log_zpow (R := ℚ) (b := 2) (by norm_num) e
    exact_mod_cast this
  have hu : ulp ((2 : ℚ) ^ e) = 2 ^ (e - 52) := by rw [ulp, hlog]
  have hpos : (0 : ℚ) < 2 ^ (e - 52) := by positivity
  have hquot : (2 : ℚ) ^ e / 2 ^ (e - 52) = ((2 ^ 52 : ℤ) : ℚ) := by
    rw [← zpow_sub₀ (by norm_num)]
    have : e - (e - 52) = 52 := by ring
    rw [this]
    norm_num
  have hround : roundHalfEven ((2 ^ 52 : ℤ) : ℚ) = 2 ^ 52 :=
    le_antisymm (roundHalfEven_le le_rfl) (le_roundHalfEven le_rfl)
  rw [nearestDouble, hu, hquot, hround, ← hquot]
  field_simp

/-! ## Quotients -/

/-- A quotient of two integers up to `2 ^ 53` is not rounded across an integer. -/
theorem ceil_trueDiv {a b : Nat} (hb : 0 < b) (ha : a ≤ 2 ^ 53) :
    ⌈trueDiv a b⌉ = ⌈(a : ℚ) / b⌉ := by
  rcases Nat.eq_zero_or_pos a with rfl | hpos
  · simp [trueDiv, nearestDouble, roundHalfEven]
  have hbq : (0 : ℚ) < b := by exact_mod_cast hb
  have hpow : (a : ℚ) ≤ 2 ^ 53 := by exact_mod_cast ha
  unfold trueDiv
  set q : ℚ := a / b with hqdef
  have hq : 0 < q := by positivity
  have hlow : (2 : ℚ) ^ Int.log 2 q ≤ q := by
    exact_mod_cast Int.zpow_log_le_self (by norm_num : 1 < 2) hq
  by_cases hexact : q = 2 ^ Int.log 2 q
  · -- a power of two is a double
    rw [hexact, nearestDouble_two_pow]
  have hlt : (2 : ℚ) ^ Int.log 2 q < q := lt_of_le_of_ne hlow (Ne.symm hexact)
  have hqa : q ≤ a := by
    rw [hqdef, div_le_iff₀ hbq]
    have : (1 : ℚ) ≤ b := by exact_mod_cast hb
    nlinarith
  have hlog : Int.log 2 q ≤ 52 := by
    have h53 : (2 : ℚ) ^ Int.log 2 q < 2 ^ (53 : ℤ) := lt_of_lt_of_le hlt (by
      calc q ≤ a := hqa
        _ ≤ 2 ^ (53 : ℤ) := by exact_mod_cast hpow)
    have := (zpow_lt_zpow_iff_right₀ (by norm_num : (1 : ℚ) < 2)).mp h53
    omega
  set n : ℤ := ⌈q⌉ with hn
  have hceil : q ≤ n := Int.le_ceil q
  have hfloor : ((n - 1 : ℤ) : ℚ) < q := by
    have := Int.ceil_lt_add_one q
    push_cast
    linarith
  rw [Int.ceil_eq_iff]
  refine ⟨lt_of_le_of_ne ?_ fun heq => ?_, nearestDouble_le hlog hceil⟩
  · exact_mod_cast le_nearestDouble hlog hfloor.le
  · -- the integer below is further away than rounding goes
    have hnear := nearestDouble_near q
    have hgap : (1 : ℚ) / b ≤ q - (n - 1) := by
      have hstep : (n - 1) * b + 1 ≤ (a : ℤ) := by
        have : ((n - 1 : ℤ) : ℚ) * b < a := by rwa [hqdef, lt_div_iff₀ hbq] at hfloor
        have : (n - 1) * b < (a : ℤ) := by exact_mod_cast this
        omega
      have hstep' : ((n - 1 : ℚ)) * b + 1 ≤ a := by exact_mod_cast hstep
      rw [hqdef, div_le_iff₀ hbq, sub_mul, div_mul_cancel₀ _ hbq.ne']
      linarith
    have hnear' : q - (n - 1) ≤ ulp q / 2 := by
      have := (abs_le.mp hnear).1
      rw [← heq] at this
      linarith
    have hulp : ulp q * 2 ^ 52 < q := by
      rw [ulp_mul]
      exact hlt
    have hbig : (2 : ℚ) ^ 53 / b < q := by
      calc (2 : ℚ) ^ 53 / b = 2 ^ 53 * (1 / b) := by ring
        _ ≤ 2 ^ 53 * (ulp q / 2) := mul_le_mul_of_nonneg_left (hgap.trans hnear') (by norm_num)
        _ = ulp q * 2 ^ 52 := by ring
        _ < q := hulp
    rw [hqdef, div_lt_div_iff_of_pos_right hbq] at hbig
    linarith

end SimulationKey.Kit
