import SimulationKey.Simulation.Multipliers

/-!
# The unit of the energy

Over exact arithmetic, a run over data in another unit (every reading multiplied by one
positive factor) is the run over the data, its energies in that unit and its rates
unchanged; it fails where that fails, with the same error (`unit_change`).
-/

namespace SimulationKey.Theorems.Units

open Kit PyFloat

/-! ## Energies in another unit -/

section Scaled

variable (k : ℚ)

def scaledMat (m : Mat ℚ) : Mat ℚ := { m with get := fun i t => k * m.get i t }

def scaledConsumer (c : ConsumerSimResult ℚ) : ConsumerSimResult ℚ :=
  { c with
    consumption := c.consumption.map (k * ·)
    consumptionTotal := k * c.consumptionTotal
    energyAllocated := c.energyAllocated.map (k * ·)
    energyAllocatedTotal := k * c.energyAllocatedTotal
    energyAllocatedConsumed := c.energyAllocatedConsumed.map (k * ·)
    energyAllocatedConsumedTotal := k * c.energyAllocatedConsumedTotal
    residualVolume := c.residualVolume.map (k * ·)
    residualVolumeTotal := k * c.residualVolumeTotal
    surplus := c.surplus.map (k * ·)
    surplusTotal := k * c.surplusTotal }

/-- Percentages and rates stay. -/
def scaledIteration (it : IterationSimResult ℚ) : IterationSimResult ℚ :=
  { it with
    consumption := it.consumption.map (k * ·)
    consumptionTotal := k * it.consumptionTotal
    energyAllocated := it.energyAllocated.map (k * ·)
    energyAllocatedTotal := k * it.energyAllocatedTotal
    energyAllocatedConsumed := it.energyAllocatedConsumed.map (k * ·)
    energyAllocatedConsumedTotal := k * it.energyAllocatedConsumedTotal
    residualVolume := it.residualVolume.map (k * ·)
    residualVolumeTotal := k * it.residualVolumeTotal
    surplus := it.surplus.map (k * ·)
    surplusTotal := k * it.surplusTotal
    consumers := it.consumers.map (scaledConsumer k) }

def scaledResult (res : KeySimResult ℚ) : KeySimResult ℚ :=
  { res with
    consumptionTotal := k * res.consumptionTotal
    energyAllocatedTotal := k * res.energyAllocatedTotal
    energyAllocatedConsumedTotal := k * res.energyAllocatedConsumedTotal
    residualVolumeTotal := k * res.residualVolumeTotal
    surplusTotal := k * res.surplusTotal
    iterations := res.iterations.map (scaledIteration k) }

variable {n T : Nat}

def scaledPass (p : Pass ℚ n T) : Pass ℚ n T :=
  { va := fun t => k * p.va t
    consumption := fun j t => k * p.consumption j t
    allocated := fun j t => k * p.allocated j t }

def scaledCarry (c : Carry ℚ n T) : Carry ℚ n T :=
  { residual := fun j t => k * c.residual j t
    surplus := fun t => k * c.surplus t }

end Scaled

/-! ## One pass -/

section Pass

variable {k : ℚ} (hk : 0 < k) {n T : Nat}

theorem axisSum_scaled {how : Summation} (k : ℚ) (f : Fin n → ℚ) :
    axisSum how (fun i => k * f i) = k * axisSum how f := by
  rw [axisSum_rat, axisSum_rat, Finset.mul_sum]

theorem ofFn_scaled (k : ℚ) (f : Fin n → ℚ) :
    List.ofFn (fun i => k * f i) = (List.ofFn f).map (k * ·) := by
  rw [List.map_ofFn]
  rfl

include hk

theorem relu_scaled (x : ℚ) : relu (k * x) = k * relu x := by
  rw [relu_rat, relu_rat, mul_max_of_nonneg _ _ hk.le, mul_zero]

/-- The weights are the same: shares of a consumption in the same unit. -/
theorem prorataWeights_scaled (C : Fin n → Fin T → ℚ) :
    prorataWeights (fun j t => k * C j t) = prorataWeights C := by
  funext j t
  rw [prorataWeights_rat, prorataWeights_rat, ← Finset.mul_sum]
  exact mul_div_mul_left _ _ hk.ne'

variable (p : Pass ℚ n T)

theorem residual_scaled (j : Fin n) (t : Fin T) :
    (scaledPass k p).residual j t = k * p.residual j t := by
  show relu (k * p.consumption j t - k * p.allocated j t) = _
  rw [← mul_sub, relu_scaled hk]
  rfl

theorem surplus_scaled (j : Fin n) (t : Fin T) :
    (scaledPass k p).surplus j t = k * p.surplus j t := by
  show relu (k * p.allocated j t - k * p.consumption j t) = _
  rw [← mul_sub, relu_scaled hk]
  rfl

theorem consumed_scaled (j : Fin n) (t : Fin T) :
    (scaledPass k p).consumed j t = k * p.consumed j t :=
  (mul_min_of_nonneg _ _ hk.le).symm

omit hk in
theorem consumptionSeries_scaled (k : ℚ) (t : Fin T) :
    (scaledPass k p).consumptionSeries t = k * p.consumptionSeries t :=
  axisSum_scaled k fun j => p.consumption j t

theorem consumedSeries_scaled (t : Fin T) :
    (scaledPass k p).consumedSeries t = k * p.consumedSeries t := by
  simp only [Pass.consumedSeries, consumed_scaled hk, axisSum_scaled]

theorem residualSeries_scaled (t : Fin T) :
    (scaledPass k p).residualSeries t = k * p.residualSeries t := by
  simp only [Pass.residualSeries, residual_scaled hk, axisSum_scaled]

theorem surplusSeries_scaled (t : Fin T) :
    (scaledPass k p).surplusSeries t = k * p.surplusSeries t := by
  simp only [Pass.surplusSeries, surplus_scaled hk, axisSum_scaled]

theorem carry_scaled : (scaledPass k p).carry = scaledCarry k p.carry := by
  simp only [Pass.carry, scaledCarry, Carry.mk.injEq]
  constructor
  · funext j t
    exact residual_scaled hk p j t
  · funext t
    exact surplusSeries_scaled hk p t

omit hk in
theorem allocationPass_scaled (k : ℚ) (production : Fin T → ℚ) (C weights : Fin n → Fin T → ℚ)
    (share : ℚ) (pct : Fin n → ℚ) (prev : Option (Carry ℚ n T)) :
    allocationPass (fun t => k * production t) (fun j t => k * C j t) weights share pct
        (prev.map (scaledCarry k)) =
      scaledPass k (allocationPass production C weights share pct prev) := by
  have hva : vaSeries (fun t => k * production t) share (prev.map (scaledCarry k)) =
      fun t => k * vaSeries production share prev t := by
    funext t
    cases prev with
    | none => exact mul_assoc k _ _
    | some prev =>
        show k * production t * share + k * prev.surplus t =
          k * (production t * share + prev.surplus t)
        ring
  have hconsumption : consumptionMatrix (fun j t => k * C j t) (prev.map (scaledCarry k)) =
      fun j t => k * consumptionMatrix C prev j t := by
    cases prev with
    | none => rfl
    | some prev => rfl
  simp only [allocationPass, scaledPass, hva, hconsumption, mul_assoc]

/-! ## Its result -/

theorem consumerResult_scaled (name : String) (pct : ℚ) (j : Fin n) :
    consumerResult (scaledPass k p) name pct j = scaledConsumer k (consumerResult p name pct j) := by
  simp only [consumerResult, scaledConsumer, ConsumerSimResult.mk.injEq, true_and]
  have hconsumed : (scaledPass k p).consumed j = fun t => k * p.consumed j t :=
    funext (consumed_scaled hk p j)
  have hresidual : (scaledPass k p).residual j = fun t => k * p.residual j t :=
    funext (residual_scaled hk p j)
  have hsurplus : (scaledPass k p).surplus j = fun t => k * p.surplus j t :=
    funext (surplus_scaled hk p j)
  rw [hconsumed, hresidual, hsurplus]
  refine ⟨?_, ?_, ?_, ?_, ?_, ?_, ?_, ?_, ?_, ?_⟩
  all_goals first | exact ofFn_scaled k _ | exact axisSum_scaled k _

theorem rateTotal_scaled (num den : ℚ) : rateTotal (k * num) (k * den) = rateTotal num den := by
  simp only [rateTotal, mul_eq_zero, hk.ne', false_or, mul_div_mul_left _ _ hk.ne']

theorem rateSeries_scaled (num den : Fin T → ℚ) (numTotal denTotal : ℚ) :
    rateSeries (fun t => k * num t) (fun t => k * den t) (k * numTotal) (k * denTotal) =
      rateSeries num den numTotal denTotal := by
  simp only [rateSeries, mul_eq_zero, hk.ne', false_or, safeDivide_rat,
    mul_div_mul_left _ _ hk.ne']

end Pass

theorem iterationResult_scaled {k : ℚ} (hk : 0 < k) {T : Nat} {consumerNames : List String}
    (it : SimulationIterationInput ℚ) (p : Pass ℚ consumerNames.length T) :
    iterationResult consumerNames it (scaledPass k p) =
      scaledIteration k (iterationResult consumerNames it p) := by
  have hconsumption : (scaledPass k p).consumptionSeries = fun t => k * p.consumptionSeries t :=
    funext (consumptionSeries_scaled p k)
  have hconsumed : (scaledPass k p).consumedSeries = fun t => k * p.consumedSeries t :=
    funext (consumedSeries_scaled hk p)
  have hresidual : (scaledPass k p).residualSeries = fun t => k * p.residualSeries t :=
    funext (residualSeries_scaled hk p)
  have hsurplus : (scaledPass k p).surplusSeries = fun t => k * p.surplusSeries t :=
    funext (surplusSeries_scaled hk p)
  have hva : (scaledPass k p).va = fun t => k * p.va t := rfl
  simp only [iterationResult, scaledIteration, hconsumption, hconsumed, hresidual, hsurplus, hva,
    axisSum_scaled, ofFn_scaled, rateTotal_scaled hk, rateSeries_scaled hk, List.map_ofFn,
    consumerResult_scaled hk]
  rfl

/-! ## The run -/

theorem runIterations_scaled {k : ℚ} (hk : 0 < k) {T : Nat} {consumerNames : List String}
    (production : Fin T → ℚ) (C weights : Fin consumerNames.length → Fin T → ℚ)
    (its : List (SimulationIterationInput ℚ)) (prev : Option (Carry ℚ consumerNames.length T)) :
    runIterations consumerNames (fun t => k * production t) (fun j t => k * C j t) weights its
        (prev.map (scaledCarry k)) =
      (runIterations consumerNames production C weights its prev).map
        (List.map (scaledIteration k)) := by
  induction its generalizing prev with
  | nil => rfl
  | cons it rest ih =>
      rw [runIterations, runIterations, allocationPass_scaled]
      cases missingConsumer it consumerNames with
      | some name => rfl
      | none =>
          have hrest := ih (some (allocationPass production C weights
            it.energyAllocatedPercentage (pcts it consumerNames) prev).carry)
          rw [Option.map_some, ← carry_scaled hk] at hrest
          simp only [hrest, iterationResult_scaled hk]
          cases runIterations consumerNames production C weights rest _ with
          | error e => rfl
          | ok results => rfl

theorem keyResult_scaled {k : ℚ} (hk : 0 < k) (key : SimulationKeyInput ℚ)
    (first : IterationSimResult ℚ) (rest : List (IterationSimResult ℚ)) :
    keyResult key (scaledIteration k first) (rest.map (scaledIteration k)) =
      scaledResult k (keyResult key first rest) := by
  have hmap : (first :: rest).map (scaledIteration k) ≠ [] := List.cons_ne_nil _ _
  have hlast : (scaledIteration k first :: rest.map (scaledIteration k)).getLast
      (List.cons_ne_nil _ _) =
        scaledIteration k ((first :: rest).getLast (List.cons_ne_nil first rest)) :=
    List.getLast_map hmap
  have hconsumed :
      sumBy .builtin ((scaledIteration k first :: rest.map (scaledIteration k)).map
        (·.energyAllocatedConsumedTotal)) =
      k * sumBy .builtin ((first :: rest).map (·.energyAllocatedConsumedTotal)) := by
    rw [sumBy_rat, sumBy_rat, ← List.sum_map_mul_left, ← List.map_cons, List.map_map]
    rfl
  simp only [keyResult, hlast, hconsumed]
  simp only [scaledResult, scaledIteration, mul_ne_zero_iff, hk.ne', mul_div_mul_left _ _ hk.ne',
    List.map_cons, ne_eq, not_false_eq_true, true_and]

/-- A run in another unit is the run, in that unit. -/
theorem unit_change {k : ℚ} (hk : 0 < k) (key : SimulationKeyInput ℚ) (C VA : Mat ℚ)
    (consumerNames : List String) :
    runSimulation key (scaledMat k C) (scaledMat k VA) consumerNames =
      (runSimulation key C VA consumerNames).map (scaledResult k) := by
  unfold runSimulation
  by_cases hits : key.iterations.isEmpty
  · rw [if_pos hits, if_pos hits]
    rfl
  by_cases hnames : consumerNames.isEmpty
  · rw [if_neg hits, if_neg hits, if_pos hnames, if_pos hnames]
    rfl
  by_cases hC : C.rows = consumerNames.length
  swap
  · have hC' : ¬ (scaledMat k C).rows = consumerNames.length := hC
    rw [if_neg hits, if_neg hits, if_neg hnames, if_neg hnames, dif_neg hC, dif_neg hC']
    rfl
  by_cases hVA : 1 ≤ VA.rows ∧ VA.cols = C.cols
  swap
  · have hC' : (scaledMat k C).rows = consumerNames.length := hC
    have hVA' : ¬ (1 ≤ (scaledMat k VA).rows ∧ (scaledMat k VA).cols = (scaledMat k C).cols) := hVA
    rw [if_neg hits, if_neg hits, if_neg hnames, if_neg hnames, dif_pos hC, dif_pos hC',
      dif_neg hVA, dif_neg hVA']
    rfl
  have hC' : (scaledMat k C).rows = consumerNames.length := hC
  have hVA' : 1 ≤ (scaledMat k VA).rows ∧ (scaledMat k VA).cols = (scaledMat k C).cols := hVA
  rw [if_neg hits, if_neg hits, if_neg hnames, if_neg hnames, dif_pos hC, dif_pos hC',
    dif_pos hVA, dif_pos hVA']
  have hloop := runIterations_scaled hk
    (fun t : Fin C.cols => VA.get ⟨0, hVA.1⟩ (t.cast hVA.2.symm))
    (fun (j : Fin consumerNames.length) t => C.get (j.cast hC.symm) t)
    (prorataWeights fun (j : Fin consumerNames.length) t => C.get (j.cast hC.symm) t)
    key.iterations none
  rw [Option.map_none] at hloop
  simp only [scaledMat, prorataWeights_scaled hk]
  rw [hloop]
  cases runIterations consumerNames _ _ _ key.iterations none with
  | error e => rfl
  | ok results =>
      cases results with
      | nil => rfl
      | cons first rest => exact congrArg Except.ok (keyResult_scaled hk key first rest)

/-- The same readings in thousandths. -/
theorem unit_change_thousand :
    ∃ res, runSimulation (keyOfShares [1] [⟨"A", -1⟩]) ⟨1, 1, fun _ _ => 3⟩ ⟨1, 1, fun _ _ => 2⟩
        ["A"] = .ok res ∧
      runSimulation (keyOfShares [1] [⟨"A", -1⟩]) (scaledMat 1000 ⟨1, 1, fun _ _ => 3⟩)
        (scaledMat 1000 ⟨1, 1, fun _ _ => 2⟩) ["A"] = .ok (scaledResult 1000 res) := by
  have haccepted : Accepted (F := ℚ) (keyOfShares [1] [⟨"A", -1⟩]) ⟨1, 1, fun _ _ => 3⟩
      ⟨1, 1, fun _ _ => 2⟩ ["A"] := ⟨by decide, by decide, rfl, ⟨le_rfl, rfl⟩, by decide⟩
  have hthousand : (0 : ℚ) < 1000 := by norm_num
  obtain ⟨res, hres⟩ := haccepted.run_ok
  refine ⟨res, hres, ?_⟩
  rw [unit_change hthousand, hres]
  rfl

end SimulationKey.Theorems.Units
