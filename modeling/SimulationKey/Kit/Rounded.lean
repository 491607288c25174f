import SimulationKey.Kit.Double
import SimulationKey.Kit.Float

/-!
# Rounded arithmetic

The numbers a rounding leaves alone, each operation on them exact and then rounded
(`Rounding.Number`). Of a rounding only what every binary format has is asked: it is
monotone and odd, doubling is exact, and the difference of two numbers is rounded by at
most `unit` of itself. Of a sum, in whatever order, that it is a number again, not
negative where no term is. No format here has a largest number: what is proved of a run
is proved of one that stays within range.

`binary64` is the rounding of a `float64`, exponents unbounded.
-/

namespace SimulationKey.Kit

structure Rounding where
  round : ℚ → ℚ
  mono : Monotone round
  idem : ∀ x, round (round x) = round x
  odd : ∀ x, round (-x) = -round x
  one : round 1 = 1
  double : ∀ x, round x = x → round (x + x) = x + x
  unit : ℚ
  unit_nonneg : 0 ≤ unit
  near : ∀ x y, round x = x → round y = y → |round (x - y) - (x - y)| ≤ unit * |x - y|
  sum : Summation → List ℚ → ℚ
  sum_exact : ∀ how xs, (∀ x ∈ xs, round x = x) → round (sum how xs) = sum how xs
  sum_nonneg : ∀ how xs, (∀ x ∈ xs, 0 ≤ x) → 0 ≤ sum how xs

namespace Rounding

variable (r : Rounding)

theorem round_zero : r.round 0 = 0 := by
  have hodd := r.odd 0
  rw [neg_zero] at hodd
  linarith

/-- A number of the format. -/
structure Number where
  value : ℚ
  exact : r.round value = value

variable {r}

namespace Number

theorem ext_value {x y : r.Number} (h : x.value = y.value) : x = y := by
  cases x
  cases y
  cases h
  rfl

/-- The result of an operation. -/
def of (r : Rounding) (q : ℚ) : r.Number := ⟨r.round q, r.idem q⟩

theorem exact_of_mem_values {xs : List r.Number} {q : ℚ} (hq : q ∈ xs.map value) :
    r.round q = q := by
  obtain ⟨x, -, rfl⟩ := List.mem_map.mp hq
  exact x.exact

def sumOf (how : Summation) (xs : List r.Number) : r.Number :=
  ⟨r.sum how (xs.map value), r.sum_exact how _ fun _ => exact_of_mem_values⟩

instance : PyFloat r.Number where
  zero := ⟨0, r.round_zero⟩
  one := ⟨1, r.one⟩
  neg x := ⟨-x.value, by rw [r.odd, x.exact]⟩
  add x y := of r (x.value + y.value)
  sub x y := of r (x.value - y.value)
  mul x y := of r (x.value * y.value)
  div x y := of r (x.value / y.value)
  min x y := if x.value ≤ y.value then x else y
  lt x y := x.value < y.value
  eqDec x y := decidable_of_iff (x.value = y.value) ⟨ext_value, fun h => h ▸ rfl⟩
  ltDec x y := inferInstanceAs (Decidable (x.value < y.value))
  isNaN _ := false
  isFinite _ := true
  isFinite_zero := rfl
  isNaN_of_finite _ _ := rfl
  sumBy := sumOf
  overflows _ := false

section Values

variable (x y : r.Number)

theorem value_min : (min x y).value = min x.value y.value := by
  show (if x.value ≤ y.value then x else y).value = _
  split_ifs with h
  · rw [min_eq_left h]
  · rw [min_eq_right (not_le.mp h).le]

theorem value_abs : (PyFloat.abs x).value = |x.value| := by
  unfold PyFloat.abs
  split_ifs with h
  · rw [abs_of_neg h]
    rfl
  · rw [abs_of_nonneg (not_lt.mp h)]

end Values

/-! ## Signs -/

theorem round_nonneg {q : ℚ} (h : 0 ≤ q) : 0 ≤ r.round q := by
  have hmono := r.mono h
  rwa [r.round_zero] at hmono

theorem round_nonpos {q : ℚ} (h : q ≤ 0) : r.round q ≤ 0 := by
  have hmono := r.mono h
  rwa [r.round_zero] at hmono

section Signs

variable {x y : r.Number} (hx : 0 ≤ x.value) (hy : 0 ≤ y.value)

include hx hy

theorem value_add_nonneg : 0 ≤ (x + y).value := round_nonneg (add_nonneg hx hy)

theorem value_mul_nonneg : 0 ≤ (x * y).value := round_nonneg (mul_nonneg hx hy)

theorem value_div_nonneg : 0 ≤ (x / y).value := round_nonneg (div_nonneg hx hy)

end Signs

theorem value_sumBy_nonneg (how : Summation) {xs : List r.Number} (h : ∀ x ∈ xs, 0 ≤ x.value) :
    0 ≤ (PyFloat.sumBy how xs).value := by
  refine r.sum_nonneg how (xs.map value) fun q hq => ?_
  obtain ⟨x, hx, rfl⟩ := List.mem_map.mp hq
  exact h x hx

theorem value_axisSum_nonneg {how : Summation} {n : Nat} {f : Fin n → r.Number}
    (h : ∀ i, 0 ≤ (f i).value) : 0 ≤ (PyFloat.axisSum how f).value := by
  refine value_sumBy_nonneg how fun x hx => ?_
  obtain ⟨i, rfl⟩ := (List.mem_ofFn' _ _).mp hx
  exact h i

end Number

end Rounding

end SimulationKey.Kit
