import SimulationKey.Kit.Double
import SimulationKey.Kit.Rounded

/-!
# The rounding of a `float64`

To 53 bits and to even, the exponent unbounded: a `Rounding` of unit `2⁻⁵³`.
-/

namespace SimulationKey.Kit

theorem roundHalfEven_int (k : ℤ) : roundHalfEven (k : ℚ) = k :=
  le_antisymm (roundHalfEven_le le_rfl) (le_roundHalfEven le_rfl)

theorem roundHalfEven_mono {p q : ℚ} (h : p ≤ q) : roundHalfEven p ≤ roundHalfEven q := by
  have hfloor : ⌊p⌋ ≤ ⌊q⌋ := Int.floor_mono h
  rcases hfloor.lt_or_eq with hlt | heq
  · -- an integer lies between them
    have hp : roundHalfEven p ≤ ⌊p⌋ + 1 := roundHalfEven_le (by
      push_cast
      exact (Int.lt_floor_add_one p).le)
    have hq : ⌊q⌋ ≤ roundHalfEven q := le_roundHalfEven (Int.floor_le q)
    omega
  · unfold roundHalfEven
    rw [heq]
    have hfrac : p - (⌊q⌋ : ℚ) ≤ q - ⌊q⌋ := sub_le_sub_right h _
    split_ifs <;> first | omega | (exfalso; linarith)

section Positive

variable {q : ℚ} (hq : 0 < q)

include hq

theorem two_pow_log_le : (2 : ℚ) ^ Int.log 2 q ≤ q := by
  exact_mod_cast Int.zpow_log_le_self (by norm_num : 1 < 2) hq

omit hq in
theorem lt_two_pow_log : q < (2 : ℚ) ^ (Int.log 2 q + 1) := by
  exact_mod_cast Int.lt_zpow_succ_log_self (by norm_num : 1 < 2) q

/-- The quotient by the distance of the doubles has 53 bits. -/
theorem quotient_bounds : ((2 ^ 52 : ℤ) : ℚ) ≤ q / ulp q ∧ q / ulp q ≤ ((2 ^ 53 : ℤ) : ℚ) := by
  have hu := ulp_pos q
  have hmul := ulp_mul q
  have hlow := two_pow_log_le hq
  have hhigh := lt_two_pow_log (q := q)
  rw [zpow_add₀ (by norm_num), zpow_one] at hhigh
  constructor
  · rw [le_div_iff₀ hu]
    push_cast
    linarith
  · rw [div_le_iff₀ hu]
    push_cast
    linarith

theorem nearestDouble_bounds :
    (2 : ℚ) ^ Int.log 2 q ≤ nearestDouble q ∧ nearestDouble q ≤ (2 : ℚ) ^ (Int.log 2 q + 1) := by
  have hu := ulp_pos q
  have hmul := ulp_mul q
  obtain ⟨hlow, hhigh⟩ := quotient_bounds hq
  have hlow' : ((2 ^ 52 : ℤ) : ℚ) ≤ roundHalfEven (q / ulp q) := by
    exact_mod_cast le_roundHalfEven hlow
  have hhigh' : (roundHalfEven (q / ulp q) : ℚ) ≤ ((2 ^ 53 : ℤ) : ℚ) := by
    exact_mod_cast roundHalfEven_le hhigh
  push_cast at hlow' hhigh'
  rw [zpow_add₀ (by norm_num), zpow_one]
  unfold nearestDouble
  constructor
  · have hscaled := mul_le_mul_of_nonneg_right hlow' hu.le
    linarith
  · have hscaled := mul_le_mul_of_nonneg_right hhigh' hu.le
    linarith

theorem nearestDouble_pos : 0 < nearestDouble q :=
  lt_of_lt_of_le (by positivity) (nearestDouble_bounds hq).1

theorem log_eq {e : ℤ} (hlow : (2 : ℚ) ^ e ≤ q) (hhigh : q < (2 : ℚ) ^ (e + 1)) :
    Int.log 2 q = e := by
  have hle : e ≤ Int.log 2 q :=
    (Int.zpow_le_iff_le_log (by norm_num : 1 < 2) hq).mp (by exact_mod_cast hlow)
  have hlt : Int.log 2 q < e + 1 :=
    (Int.lt_zpow_iff_log_lt (by norm_num : 1 < 2) hq).mp (by exact_mod_cast hhigh)
  omega

theorem log_double : Int.log 2 (q + q) = Int.log 2 q + 1 := by
  have hlow := two_pow_log_le hq
  have hhigh := lt_two_pow_log (q := q)
  apply log_eq (by linarith)
  · rw [zpow_add₀ (by norm_num), zpow_one]
    linarith
  · rw [zpow_add₀ (by norm_num) (Int.log 2 q + 1), zpow_one]
    linarith

theorem nearestDouble_double : nearestDouble (q + q) = nearestDouble q + nearestDouble q := by
  have hulp : ulp (q + q) = ulp q * 2 := by
    unfold ulp
    rw [log_double hq, ← zpow_add_one₀ (by norm_num)]
    congr 1
    ring
  have hquotient : (q + q) / ulp (q + q) = q / ulp q := by
    rw [hulp, ← mul_two, mul_div_mul_right _ _ (by norm_num)]
  unfold nearestDouble
  rw [hquotient, hulp]
  ring

/-- Rounding moves a number by at most `2⁻⁵³` of it. -/
theorem nearestDouble_relative : |nearestDouble q - q| ≤ 2⁻¹ ^ 53 * q := by
  have hnear := nearestDouble_near q
  have hmul := ulp_mul q
  have hlow := two_pow_log_le hq
  have hunit : (2⁻¹ : ℚ) ^ 53 * 2 ^ 53 = 1 := by norm_num
  nlinarith

theorem nearestDouble_idem : nearestDouble (nearestDouble q) = nearestDouble q := by
  obtain ⟨hlow, hhigh⟩ := nearestDouble_bounds hq
  rcases hhigh.lt_or_eq with hlt | heq
  · have hlog : Int.log 2 (nearestDouble q) = Int.log 2 q := log_eq (nearestDouble_pos hq) hlow hlt
    have hulp : ulp (nearestDouble q) = ulp q := by
      unfold ulp
      rw [hlog]
    have hquotient : nearestDouble q / ulp q = roundHalfEven (q / ulp q) := by
      rw [nearestDouble, mul_div_cancel_right₀ _ (ulp_pos q).ne']
    show (roundHalfEven (nearestDouble q / ulp (nearestDouble q)) : ℚ) *
      ulp (nearestDouble q) = _
    rw [hulp, hquotient, roundHalfEven_int]
    rfl
  · rw [heq, nearestDouble_two_pow]

end Positive

theorem nearestDouble_zero : nearestDouble 0 = 0 := by
  simp [nearestDouble, roundHalfEven]

theorem nearestDouble_nonneg {q : ℚ} (hq : 0 ≤ q) : 0 ≤ nearestDouble q := by
  rcases hq.lt_or_eq with hpos | rfl
  · exact (nearestDouble_pos hpos).le
  · exact nearestDouble_zero.ge

theorem nearestDouble_mono {p q : ℚ} (hp : 0 < p) (h : p ≤ q) :
    nearestDouble p ≤ nearestDouble q := by
  have hq : 0 < q := hp.trans_le h
  have hlog : Int.log 2 p ≤ Int.log 2 q := Int.log_mono_right hp h
  rcases hlog.lt_or_eq with hlt | heq
  · -- a power of two lies between them
    have hpow : (2 : ℚ) ^ (Int.log 2 p + 1) ≤ 2 ^ Int.log 2 q :=
      zpow_le_zpow_right₀ (by norm_num) hlt
    exact (nearestDouble_bounds hp).2.trans (hpow.trans (nearestDouble_bounds hq).1)
  · have hulp : ulp p = ulp q := by
      unfold ulp
      rw [heq]
    have hu := ulp_pos q
    unfold nearestDouble
    rw [hulp]
    refine mul_le_mul_of_nonneg_right ?_ hu.le
    exact_mod_cast roundHalfEven_mono (div_le_div_of_nonneg_right h hu.le)

/-! ## Both signs -/

def roundBinary64 (q : ℚ) : ℚ := if 0 ≤ q then nearestDouble q else -nearestDouble (-q)

theorem roundBinary64_of_nonneg {q : ℚ} (hq : 0 ≤ q) : roundBinary64 q = nearestDouble q :=
  if_pos hq

theorem roundBinary64_neg (q : ℚ) : roundBinary64 (-q) = -roundBinary64 q := by
  unfold roundBinary64
  rcases lt_trichotomy q 0 with hneg | rfl | hpos
  · rw [if_pos (by linarith), if_neg (by linarith), neg_neg]
  · simp [nearestDouble_zero]
  · rw [if_neg (by linarith), if_pos hpos.le, neg_neg]

/-- What holds of the rounding of every number from zero on, and passes to opposite
numbers, holds of the rounding of every number. -/
theorem roundBinary64_cases {P : ℚ → ℚ → Prop} (hneg : ∀ q x, P q x → P (-q) (-x))
    (h : ∀ q, 0 ≤ q → P q (nearestDouble q)) (q : ℚ) : P q (roundBinary64 q) := by
  rcases le_or_gt 0 q with hq | hq
  · rw [roundBinary64_of_nonneg hq]
    exact h q hq
  · have hopposite := hneg _ _ (h (-q) (by linarith))
    rw [← roundBinary64_of_nonneg (by linarith : 0 ≤ -q), roundBinary64_neg, neg_neg,
      neg_neg] at hopposite
    exact hopposite

theorem roundBinary64_mono : Monotone roundBinary64 := by
  have hnonneg : ∀ {p q : ℚ}, 0 ≤ p → p ≤ q → roundBinary64 p ≤ roundBinary64 q := by
    intro p q hp h
    rw [roundBinary64_of_nonneg hp, roundBinary64_of_nonneg (hp.trans h)]
    rcases hp.lt_or_eq with hpos | rfl
    · exact nearestDouble_mono hpos h
    · rw [nearestDouble_zero]
      exact nearestDouble_nonneg h
  intro p q h
  rcases le_or_gt 0 p with hp | hp
  · exact hnonneg hp h
  rcases le_or_gt q 0 with hq | hq
  · have hopposite := hnonneg (neg_nonneg.mpr hq) (neg_le_neg h)
    rw [roundBinary64_neg, roundBinary64_neg] at hopposite
    exact neg_le_neg_iff.mp hopposite
  · -- of different signs
    have hp' := hnonneg le_rfl (neg_nonneg.mpr hp.le)
    have hq' := hnonneg le_rfl hq.le
    rw [roundBinary64_neg] at hp'
    have hzero : roundBinary64 0 = 0 := by
      rw [roundBinary64_of_nonneg le_rfl, nearestDouble_zero]
    linarith

theorem roundBinary64_idem (q : ℚ) : roundBinary64 (roundBinary64 q) = roundBinary64 q := by
  refine roundBinary64_cases (P := fun _ x => roundBinary64 x = x) (fun q x h => ?_)
    (fun q hq => ?_) q
  · rw [roundBinary64_neg, h]
  · rw [roundBinary64_of_nonneg (nearestDouble_nonneg hq)]
    rcases hq.lt_or_eq with hpos | rfl
    · exact nearestDouble_idem hpos
    · rw [nearestDouble_zero, nearestDouble_zero]

/-! ## Sums -/

/-- The terms added one after the other, each sum rounded. -/
def sumBinary64 (xs : List ℚ) : ℚ := xs.foldl (fun s x => roundBinary64 (s + x)) 0

theorem sumBinary64_concat (xs : List ℚ) (x : ℚ) :
    sumBinary64 (xs ++ [x]) = roundBinary64 (sumBinary64 xs + x) := by
  rw [sumBinary64, List.foldl_append]
  rfl

theorem sumBinary64_exact (xs : List ℚ) : roundBinary64 (sumBinary64 xs) = sumBinary64 xs := by
  rcases xs.eq_nil_or_concat with rfl | ⟨init, last, rfl⟩
  · show roundBinary64 0 = 0
    rw [roundBinary64_of_nonneg le_rfl, nearestDouble_zero]
  · rw [List.concat_eq_append, sumBinary64_concat, roundBinary64_idem]

theorem sumBinary64_nonneg {xs : List ℚ} (h : ∀ x ∈ xs, 0 ≤ x) : 0 ≤ sumBinary64 xs := by
  induction xs using List.reverseRecOn with
  | nil => exact le_rfl
  | append_singleton init last ih =>
      have hinit := ih fun x hx => h x (List.mem_append_left _ hx)
      have hlast := h last (List.mem_append_right _ (List.mem_singleton_self _))
      rw [sumBinary64_concat, roundBinary64_of_nonneg (add_nonneg hinit hlast)]
      exact nearestDouble_nonneg (add_nonneg hinit hlast)

/-- The rounding of a `float64` within its range; every sum one addition after the other. -/
def binary64 : Rounding where
  round := roundBinary64
  mono := roundBinary64_mono
  idem := roundBinary64_idem
  odd := roundBinary64_neg
  one := by
    rw [roundBinary64_of_nonneg zero_le_one]
    exact nearestDouble_two_pow 0
  double := by
    refine roundBinary64_cases (P := fun q x => x = q → roundBinary64 (q + q) = q + q)
      (fun q x h hx => ?_) fun q hq hx => ?_
    · rw [← neg_add, roundBinary64_neg, h (neg_inj.mp hx)]
    · rw [roundBinary64_of_nonneg (add_nonneg hq hq)]
      rcases hq.lt_or_eq with hpos | rfl
      · rw [nearestDouble_double hpos, hx]
      · rw [add_zero, nearestDouble_zero]
  unit := 2⁻¹ ^ 53
  unit_nonneg := by positivity
  near := fun x y _ _ => by
    refine roundBinary64_cases (P := fun q z => |z - q| ≤ 2⁻¹ ^ 53 * |q|) (fun q z h => ?_)
      (fun q hq => ?_) (x - y)
    · rw [abs_neg, neg_sub_neg, abs_sub_comm]
      exact h
    · rw [abs_of_nonneg hq]
      rcases hq.lt_or_eq with hpos | rfl
      · exact nearestDouble_relative hpos
      · rw [nearestDouble_zero]
        simp
  sum _ := sumBinary64
  sum_exact _ xs _ := sumBinary64_exact xs
  sum_nonneg _ _ h := sumBinary64_nonneg h

end SimulationKey.Kit
