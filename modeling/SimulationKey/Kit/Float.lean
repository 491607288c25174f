import Mathlib

/-!
# Float arithmetic as a parameter

Numeric code is written once over `PyFloat F`, the operations a `float64`
program uses, with no law but that zero is finite and what is finite is a number.
Instantiating `F` decides what a theorem is about: `ℚ` is exact arithmetic (every
value finite), any other instance may round, overflow or hold special values.

A sum's value depends on the order of its additions, and what adds has an order of
its own: NumPy goes down the rows of a wide array one after the other and adds a
single column in pairs, Python's `sum` and a group of pandas compensate. So each is
an operation of the type, and none is asked to agree with another. At `ℚ` all are
the sum.
-/

namespace SimulationKey.Kit

/-- What adds up a list: NumPy, the entries of one column of a row-major array of this
shape (`sum(axis=0)`) or those of a series; Python's `sum`; pandas, those of a group;
PostgreSQL's `SUM`. -/
inductive Summation where
  | column (rows cols : Nat)
  | series
  | builtin
  | group
  | query
  deriving DecidableEq, Repr

/-- The operations of a floating-point type. Equality is only ever tested against
zero, and has to be the format's `==` there: one value stands for both zeros. -/
class PyFloat (F : Type) extends
    Zero F, One F, Neg F, Add F, Sub F, Mul F, Div F, Min F, LT F where
  eqDec : ∀ x y : F, Decidable (x = y)
  ltDec : ∀ x y : F, Decidable (x < y)
  isNaN : F → Bool
  isFinite : F → Bool
  isFinite_zero : isFinite 0 = true
  isNaN_of_finite : ∀ x, isFinite x = true → isNaN x = false
  /-- The sum of a list, in the order of what adds it up. -/
  sumBy : Summation → List F → F
  /-- PostgreSQL refuses the list: an addition of its `SUM` is out of range. -/
  overflows : List F → Bool

namespace PyFloat

variable {F : Type} [PyFloat F]

instance : DecidableEq F := eqDec

instance : DecidableLT F := ltDec

attribute [simp] isFinite_zero

/-- Absolute value. -/
def abs (x : F) : F := if x < 0 then -x else x

/-- `x <= y`. -/
def le (x y : F) : Bool := x < y || x = y

/-- Sum of a vector of terms. -/
def axisSum (how : Summation) {n : Nat} (f : Fin n → F) : F := sumBy how (List.ofFn f)

/-- Exact rational arithmetic. -/
instance : PyFloat ℚ where
  eqDec := inferInstance
  ltDec := inferInstance
  isNaN _ := false
  isFinite _ := true
  isFinite_zero := rfl
  isNaN_of_finite _ _ := rfl
  sumBy _ := List.sum
  overflows _ := false

@[simp] theorem isFinite_rat (x : ℚ) : isFinite x = true := rfl

@[simp] theorem abs_rat (x : ℚ) : PyFloat.abs x = |x| := by
  unfold PyFloat.abs
  split_ifs with h
  · exact (abs_of_neg h).symm
  · exact (abs_of_nonneg (not_lt.mp h)).symm

@[simp] theorem sumBy_rat (how : Summation) (l : List ℚ) : sumBy how l = l.sum := rfl

@[simp] theorem overflows_rat (l : List ℚ) : overflows l = false := rfl

@[simp] theorem axisSum_rat {how : Summation} {n : Nat} (f : Fin n → ℚ) :
    axisSum how f = ∑ i, f i := by
  simp [axisSum, List.sum_ofFn]

end PyFloat

/-- Exact arithmetic with one value that is not a number. -/
structure NanRat where
  value : Option ℚ
  deriving DecidableEq, Repr

namespace NanRat

def map₂ (f : ℚ → ℚ → ℚ) (x y : NanRat) : NanRat := ⟨Option.map₂ f x.value y.value⟩

/-- A comparison with it is false. -/
def less : NanRat → NanRat → Bool
  | ⟨some p⟩, ⟨some q⟩ => p < q
  | _, _ => false

instance : PyFloat NanRat where
  zero := ⟨some 0⟩
  one := ⟨some 1⟩
  neg x := ⟨x.value.map (- ·)⟩
  add := map₂ (· + ·)
  sub := map₂ (· - ·)
  mul := map₂ (· * ·)
  div := map₂ (· / ·)
  min := map₂ min
  lt x y := less x y = true
  eqDec := inferInstance
  ltDec x y := inferInstanceAs (Decidable (less x y = true))
  isNaN x := x.value.isNone
  isFinite x := x.value.isSome
  isFinite_zero := rfl
  isNaN_of_finite x h := by simpa using h
  sumBy _ l := l.foldl (map₂ (· + ·)) ⟨some 0⟩
  overflows _ := false

end NanRat

/-- Exact arithmetic up to a range, what is past it infinite. -/
structure RangedRat where
  value : Option ℚ
  deriving DecidableEq, Repr

namespace RangedRat

/-- The result of an operation; a double's range ends at `2 ^ 1024`. -/
def ofRat (q : ℚ) : RangedRat := ⟨if |q| < 2 ^ 1024 then some q else none⟩

def map₂ (f : ℚ → ℚ → ℚ) : RangedRat → RangedRat → RangedRat
  | ⟨some p⟩, ⟨some q⟩ => ofRat (f p q)
  | _, _ => ⟨none⟩

def less : RangedRat → RangedRat → Bool
  | ⟨some p⟩, ⟨some q⟩ => p < q
  | _, _ => false

instance : PyFloat RangedRat where
  zero := ⟨some 0⟩
  one := ⟨some 1⟩
  neg x := ⟨x.value.map (- ·)⟩
  add := map₂ (· + ·)
  sub := map₂ (· - ·)
  mul := map₂ (· * ·)
  div := map₂ (· / ·)
  min := map₂ min
  lt x y := less x y = true
  eqDec := inferInstance
  ltDec x y := inferInstanceAs (Decidable (less x y = true))
  isNaN _ := false
  isFinite x := x.value.isSome
  isFinite_zero := rfl
  isNaN_of_finite _ _ := rfl
  sumBy _ l := l.foldl (map₂ (· + ·)) ⟨some 0⟩
  overflows l := l.all (·.value.isSome) && (l.foldl (map₂ (· + ·)) ⟨some 0⟩).value.isNone

end RangedRat

end SimulationKey.Kit
