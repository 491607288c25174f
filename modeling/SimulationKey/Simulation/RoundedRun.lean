import SimulationKey.Kit.Rounded
import SimulationKey.Simulation.Refinement

/-!
# The passes in rounded arithmetic

What one pass promises over the numbers of any rounding: the sign of everything it
computes, that a consumer is never left both short and with energy it did not take, and
that what it consumes and is left with is its demand, up to one rounding. Then what
the passes of a run promise, each fed by the one before.
-/

namespace SimulationKey.RoundedRun

open Kit PyFloat
open Kit.Rounding (Number)

variable {r : Rounding} {n T : Nat}

/-- The two positive branches of `relu` double and halve, both exact. -/
theorem value_relu (x : r.Number) : (relu x).value = max 0 x.value := by
  have htwo : r.round (1 + 1) = 1 + 1 := r.double 1 r.one
  show r.round (r.round (x.value + (PyFloat.abs x).value) / r.round (1 + 1)) = _
  rw [htwo, Number.value_abs]
  rcases le_total 0 x.value with h | h
  · rw [abs_of_nonneg h, r.double x.value x.exact, max_eq_right h]
    have hhalf : (x.value + x.value) / (1 + 1) = x.value := by ring
    rw [hhalf, x.exact]
  · rw [abs_of_nonpos h, add_neg_cancel, r.round_zero, zero_div, r.round_zero, max_eq_left h]

/-! ## One pass -/

section Pass

variable (p : Pass r.Number n T) (j : Fin n) (t : Fin T)

theorem value_residual :
    (p.residual j t).value = max 0 (r.round ((p.consumption j t).value - (p.allocated j t).value)) :=
  value_relu _

theorem value_surplus :
    (p.surplus j t).value = max 0 (r.round ((p.allocated j t).value - (p.consumption j t).value)) :=
  value_relu _

theorem value_consumed :
    (p.consumed j t).value = min (p.consumption j t).value (p.allocated j t).value :=
  Number.value_min _ _

theorem residual_nonneg : 0 ≤ (p.residual j t).value := by
  rw [value_residual]
  exact le_max_left _ _

theorem surplus_nonneg : 0 ≤ (p.surplus j t).value := by
  rw [value_surplus]
  exact le_max_left _ _

theorem residual_eq_zero_or : (p.residual j t).value = 0 ∨ (p.surplus j t).value = 0 := by
  rw [value_residual, value_surplus]
  rcases le_total (p.consumption j t).value (p.allocated j t).value with h | h
  · exact .inl (max_eq_left (Number.round_nonpos (sub_nonpos.mpr h)))
  · exact .inr (max_eq_left (Number.round_nonpos (sub_nonpos.mpr h)))

/-- Nothing a pass starts from is negative. -/
structure PassNonneg : Prop where
  va : ∀ t, 0 ≤ (p.va t).value
  consumption : ∀ j t, 0 ≤ (p.consumption j t).value
  allocated : ∀ j t, 0 ≤ (p.allocated j t).value

variable {p} (hp : PassNonneg p)

include hp

theorem consumed_nonneg : 0 ≤ (p.consumed j t).value := by
  rw [value_consumed]
  exact le_min (hp.consumption j t) (hp.allocated j t)

/-- Rounding does not push the rest of a demand above it. -/
theorem residual_le : (p.residual j t).value ≤ (p.consumption j t).value := by
  rw [value_residual]
  apply max_le (hp.consumption j t)
  have hle : r.round ((p.consumption j t).value - (p.allocated j t).value) ≤
      r.round (p.consumption j t).value := r.mono (sub_le_self _ (hp.allocated j t))
  rwa [(p.consumption j t).exact] at hle

/-- Only the subtraction of a residual is rounded. -/
theorem consumed_add_residual :
    |(p.consumed j t).value + (p.residual j t).value - (p.consumption j t).value| ≤
      r.unit * (p.consumption j t).value := by
  have hdemand := hp.consumption j t
  rw [value_consumed, value_residual]
  rcases le_total (p.consumption j t).value (p.allocated j t).value with h | h
  · rw [min_eq_left h, max_eq_left (Number.round_nonpos (sub_nonpos.mpr h)), add_zero, sub_self,
      abs_zero]
    exact mul_nonneg r.unit_nonneg hdemand
  · have hleft : 0 ≤ (p.consumption j t).value - (p.allocated j t).value := sub_nonneg.mpr h
    have hnear := r.near _ _ (p.consumption j t).exact (p.allocated j t).exact
    rw [abs_of_nonneg hleft] at hnear
    have hshrinks : r.unit * ((p.consumption j t).value - (p.allocated j t).value) ≤
        r.unit * (p.consumption j t).value :=
      mul_le_mul_of_nonneg_left (sub_le_self _ (hp.allocated j t)) r.unit_nonneg
    rw [min_eq_right h, max_eq_right (Number.round_nonneg hleft)]
    have hsame : (p.allocated j t).value +
          r.round ((p.consumption j t).value - (p.allocated j t).value) -
            (p.consumption j t).value =
        r.round ((p.consumption j t).value - (p.allocated j t).value) -
          ((p.consumption j t).value - (p.allocated j t).value) := by ring
    rw [hsame]
    exact hnear.trans hshrinks

end Pass

/-! ## What a pass is handed -/

/-- Fractions, and the mark of a PRORATA consumer. -/
def RoundedModed (pct : Fin n → r.Number) : Prop := ∀ j, 0 ≤ (pct j).value ∨ (pct j).value = -1

theorem value_safeDivide_nonneg {num den : r.Number} (hnum : 0 ≤ num.value) (hden : 0 ≤ den.value) :
    0 ≤ (safeDivide num den).value := by
  unfold safeDivide
  split_ifs
  · exact Number.value_div_nonneg hnum hden
  · exact le_rfl

theorem value_weights_nonneg {C : Fin n → Fin T → r.Number} (hC : ∀ j t, 0 ≤ (C j t).value)
    (j : Fin n) (t : Fin T) : 0 ≤ (prorataWeights C j t).value :=
  value_safeDivide_nonneg (hC j t) (Number.value_axisSum_nonneg fun i => hC i t)

theorem value_multiplier_nonneg {weights : Fin n → Fin T → r.Number}
    (hweights : ∀ j t, 0 ≤ (weights j t).value) {pct : Fin n → r.Number} (hpct : RoundedModed pct)
    (j : Fin n) (t : Fin T) : 0 ≤ (multiplier weights pct j t).value := by
  unfold multiplier
  split_ifs with hfixed
  · rcases hpct j with h | h
    · exact h
    · -- the mark is not above itself
      have hlt : -1 < (pct j).value := hfixed
      linarith
  · exact hweights j t

/-- Nothing a pass hands on is negative. -/
def CarryNonneg (prev : Option (Carry r.Number n T)) : Prop :=
  ∀ c ∈ prev, (∀ j t, 0 ≤ (c.residual j t).value) ∧ ∀ t, 0 ≤ (c.surplus t).value

theorem carryNonneg_none : CarryNonneg (none : Option (Carry r.Number n T)) := fun _ hc => by
  cases hc

theorem carry_nonneg (p : Pass r.Number n T) : CarryNonneg (some p.carry) := by
  intro c hc
  obtain rfl := Option.mem_some_iff.mp hc
  exact ⟨residual_nonneg p, fun t => Number.value_axisSum_nonneg fun j => surplus_nonneg p j t⟩

section Passes

variable {production : Fin T → r.Number} (hproduction : ∀ t, 0 ≤ (production t).value)
  {C weights : Fin n → Fin T → r.Number} (hC : ∀ j t, 0 ≤ (C j t).value)
  (hweights : ∀ j t, 0 ≤ (weights j t).value)

include hproduction hC hweights

theorem allocationPass_nonneg {share : r.Number} (hshare : 0 ≤ share.value)
    {pct : Fin n → r.Number} (hpct : RoundedModed pct) {prev : Option (Carry r.Number n T)}
    (hprev : CarryNonneg prev) :
    PassNonneg (allocationPass production C weights share pct prev) := by
  have hva : ∀ t, 0 ≤ (vaSeries production share prev t).value := by
    intro t
    have hown := Number.value_mul_nonneg (hproduction t) hshare
    cases prev with
    | none => exact hown
    | some c => exact Number.value_add_nonneg hown ((hprev c rfl).2 t)
  have hconsumption : ∀ j t, 0 ≤ (consumptionMatrix C prev j t).value := by
    intro j t
    cases prev with
    | none => exact hC j t
    | some c => exact (hprev c rfl).1 j t
  exact
    { va := hva
      consumption := hconsumption
      allocated := fun j t =>
        Number.value_mul_nonneg (hva t) (value_multiplier_nonneg hweights hpct j t) }

end Passes

/-! ## The passes of a run -/

section Run

variable {consumerNames : List String} {production : Fin T → r.Number}
  (hproduction : ∀ t, 0 ≤ (production t).value)
  {C weights : Fin consumerNames.length → Fin T → r.Number} (hC : ∀ j t, 0 ≤ (C j t).value)
  (hweights : ∀ j t, 0 ≤ (weights j t).value)

include hproduction hC hweights

theorem passes_nonneg {its : List (SimulationIterationInput r.Number)}
    (hshares : ∀ it ∈ its, 0 ≤ it.energyAllocatedPercentage.value)
    (hmoded : ∀ it ∈ its, RoundedModed (pcts it consumerNames))
    {prev : Option (Carry r.Number consumerNames.length T)} (hprev : CarryNonneg prev) :
    ∀ x ∈ passes production C weights its prev, PassNonneg x.2 := by
  induction its generalizing prev with
  | nil => intro x hx; cases hx
  | cons it rest ih =>
      intro x hx
      rcases List.mem_cons.mp hx with rfl | hx
      · exact allocationPass_nonneg hproduction hC hweights (hshares it List.mem_cons_self)
          (hmoded it List.mem_cons_self) hprev
      · exact ih (fun it' hit' => hshares it' (List.mem_cons_of_mem _ hit'))
          (fun it' hit' => hmoded it' (List.mem_cons_of_mem _ hit')) (carry_nonneg _) x hx

/-- A consumer's demand is consumed in some pass or left by the last, up to one rounding
for each pass. -/
theorem passes_balance {its : List (SimulationIterationInput r.Number)}
    (hshares : ∀ it ∈ its, 0 ≤ it.energyAllocatedPercentage.value)
    (hmoded : ∀ it ∈ its, RoundedModed (pcts it consumerNames))
    {prev : Option (Carry r.Number consumerNames.length T)} (hprev : CarryNonneg prev)
    {last : SimulationIterationInput r.Number × Pass r.Number consumerNames.length T}
    (hlast : (passes production C weights its prev).getLast? = some last)
    (j : Fin consumerNames.length) (t : Fin T) :
    |((passes production C weights its prev).map fun x => (x.2.consumed j t).value).sum +
        (last.2.residual j t).value - (consumptionMatrix C prev j t).value| ≤
      its.length * (r.unit * (consumptionMatrix C prev j t).value) := by
  induction its generalizing prev with
  | nil => simp [passes] at hlast
  | cons it rest ih =>
      have hpass : PassNonneg (allocationPass production C weights it.energyAllocatedPercentage
          (pcts it consumerNames) prev) :=
        allocationPass_nonneg hproduction hC hweights (hshares it List.mem_cons_self)
          (hmoded it List.mem_cons_self) hprev
      rw [passes] at hlast ⊢
      generalize hp : allocationPass production C weights it.energyAllocatedPercentage
        (pcts it consumerNames) prev = p at hlast hpass ⊢
      have hdemand : p.consumption = consumptionMatrix C prev := by rw [← hp]; rfl
      have hround := consumed_add_residual j t hpass
      have hshrinks := residual_le j t hpass
      rw [hdemand] at hround hshrinks
      rw [List.map_cons, List.sum_cons]
      cases rest with
      | nil =>
          obtain rfl : (it, p) = last := by simpa [passes] using hlast
          simpa [passes] using hround
      | cons it' rest =>
          have hlast' : (passes production C weights (it' :: rest) (some p.carry)).getLast? =
              some last := by
            simpa [passes, List.getLast?_cons_cons] using hlast
          have hrest := ih (fun it'' hit => hshares it'' (List.mem_cons_of_mem _ hit))
            (fun it'' hit => hmoded it'' (List.mem_cons_of_mem _ hit)) (carry_nonneg p) hlast'
          have hcarried : consumptionMatrix C (some p.carry) j t = p.residual j t := rfl
          rw [hcarried] at hrest
          -- the later passes' error is one on the residual, no larger than the demand
          have hunit : r.unit * (p.residual j t).value ≤
              r.unit * (consumptionMatrix C prev j t).value :=
            mul_le_mul_of_nonneg_left hshrinks r.unit_nonneg
          have hlater : ((it' :: rest).length : ℚ) * (r.unit * (p.residual j t).value) ≤
              (it' :: rest).length * (r.unit * (consumptionMatrix C prev j t).value) :=
            mul_le_mul_of_nonneg_left hunit (Nat.cast_nonneg _)
          have hlength : ((it :: it' :: rest).length : ℚ) = (it' :: rest).length + 1 := by
            rw [List.length_cons, Nat.cast_add, Nat.cast_one]
          rw [hlength, add_mul, one_mul]
          rw [abs_le] at hround hrest ⊢
          constructor <;> linarith [hround.1, hround.2, hrest.1, hrest.2]

end Run

end SimulationKey.RoundedRun
