import SimulationKey.Kit.Binary64
import SimulationKey.Simulation.Readings
import SimulationKey.Simulation.RoundedRun

/-!
# Volumes and balance under rounding

A run over the numbers of any rounding, its data and key not negative:

* `volumes_rounded` — no value, total or rate is negative, no consumer has residual and
  surplus at one timestep, and no residual grows from an iteration to the next: rounding
  costs none of this;
* `balance_rounded` — what a consumer consumes in all iterations and is left with is its
  demand, up to the unit of the rounding for each iteration, relative to the demand.
-/

namespace SimulationKey.Theorems.RoundedVolumes

open Kit PyFloat RoundedRun
open Kit.Rounding (Number)

variable {r : Rounding}

/-- Data and key of a run over quantities that are not negative. -/
structure NonnegData (key : SimulationKeyInput r.Number) (C VA : Mat r.Number)
    (consumerNames : List String) : Prop where
  consumption : ∀ j t, 0 ≤ (C.at j t).value
  production : ∀ t, 0 ≤ (VA.at 0 t).value
  shares : ∀ it ∈ key.iterations, 0 ≤ it.energyAllocatedPercentage.value
  moded : ∀ it ∈ key.iterations, RoundedModed (pcts it consumerNames)

/-! ## What a result promises -/

structure ConsumerPhysical (c : ConsumerSimResult r.Number) : Prop
    extends ConsumerNonneg Number.value c where
  consumptionTotal : 0 ≤ c.consumptionTotal.value
  energyAllocatedTotal : 0 ≤ c.energyAllocatedTotal.value
  energyAllocatedConsumedTotal : 0 ≤ c.energyAllocatedConsumedTotal.value
  residualVolumeTotal : 0 ≤ c.residualVolumeTotal.value
  surplusTotal : 0 ≤ c.surplusTotal.value
  residual_or_surplus :
    ∀ t, (seriesAt c.residualVolume t).value = 0 ∨ (seriesAt c.surplus t).value = 0

structure Physical (it : IterationSimResult r.Number) : Prop
    extends IterationNonneg Number.value it where
  consumers : ∀ c ∈ it.consumers, ConsumerPhysical c
  consumptionTotal : 0 ≤ it.consumptionTotal.value
  energyAllocatedTotal : 0 ≤ it.energyAllocatedTotal.value
  energyAllocatedConsumedTotal : 0 ≤ it.energyAllocatedConsumedTotal.value
  residualVolumeTotal : 0 ≤ it.residualVolumeTotal.value
  surplusTotal : 0 ≤ it.surplusTotal.value
  sharingRateTotal : 0 ≤ it.sharingRateTotal.value
  selfSufficiencyRateTotal : 0 ≤ it.selfSufficiencyRateTotal.value

/-! ## One pass's result -/

section Result

variable {T : Nat}

theorem rateSeries_nonneg {num den : Fin T → r.Number} (hnum : ∀ t, 0 ≤ (num t).value)
    (hden : ∀ t, 0 ≤ (den t).value) (numTotal denTotal : r.Number) (t : Fin T) :
    0 ≤ (rateSeries num den numTotal denTotal t).value := by
  unfold rateSeries
  split_ifs
  · exact le_rfl
  · exact value_safeDivide_nonneg (hnum t) (hden t)

theorem rateTotal_nonneg {num den : r.Number} (hnum : 0 ≤ num.value) (hden : 0 ≤ den.value) :
    0 ≤ (rateTotal num den).value := by
  unfold rateTotal
  split_ifs
  · exact le_rfl
  · exact Number.value_div_nonneg hnum hden

variable {consumerNames : List String} (it : SimulationIterationInput r.Number)
  {p : Pass r.Number consumerNames.length T} (hp : PassNonneg p)

include hp

theorem consumer_physical (name : String) (pct : r.Number) (j : Fin consumerNames.length) :
    ConsumerPhysical (consumerResult p name pct j) := by
  have hconsumed : ∀ t, 0 ≤ (p.consumed j t).value := fun t => consumed_nonneg j t hp
  refine
    { consumption := seriesNonneg_ofFn (hp.consumption j)
      consumptionTotal := Number.value_axisSum_nonneg (hp.consumption j)
      energyAllocated := seriesNonneg_ofFn (hp.allocated j)
      energyAllocatedTotal := Number.value_axisSum_nonneg (hp.allocated j)
      energyAllocatedConsumed := seriesNonneg_ofFn hconsumed
      energyAllocatedConsumedTotal := Number.value_axisSum_nonneg hconsumed
      residualVolume := seriesNonneg_ofFn (residual_nonneg p j)
      residualVolumeTotal := Number.value_axisSum_nonneg (residual_nonneg p j)
      surplus := seriesNonneg_ofFn (surplus_nonneg p j)
      surplusTotal := Number.value_axisSum_nonneg (surplus_nonneg p j)
      residual_or_surplus := fun t => ?_ }
  show (seriesAt (List.ofFn (p.residual j)) t).value = 0 ∨
    (seriesAt (List.ofFn (p.surplus j)) t).value = 0
  by_cases ht : t < T
  · rw [seriesAt_ofFn_lt _ ht, seriesAt_ofFn_lt _ ht]
    exact residual_eq_zero_or p j ⟨t, ht⟩
  · rw [seriesAt_ofFn_ge _ (not_lt.mp ht)]
    exact .inl rfl

theorem iteration_physical : Physical (iterationResult consumerNames it p) := by
  have hconsumption : ∀ t, 0 ≤ (p.consumptionSeries t).value := fun t =>
    Number.value_axisSum_nonneg fun j => hp.consumption j t
  have hconsumed : ∀ t, 0 ≤ (p.consumedSeries t).value := fun t =>
    Number.value_axisSum_nonneg fun j => consumed_nonneg j t hp
  have hresidual : ∀ t, 0 ≤ (p.residualSeries t).value := fun t =>
    Number.value_axisSum_nonneg fun j => residual_nonneg p j t
  have hsurplus : ∀ t, 0 ≤ (p.surplusSeries t).value := fun t =>
    Number.value_axisSum_nonneg fun j => surplus_nonneg p j t
  have hconsumedTotal : 0 ≤ (axisSum .series p.consumedSeries).value :=
    Number.value_axisSum_nonneg hconsumed
  refine
    { consumers := fun c hc => ?_
      consumption := seriesNonneg_ofFn hconsumption
      consumptionTotal := Number.value_axisSum_nonneg hconsumption
      energyAllocated := seriesNonneg_ofFn hp.va
      energyAllocatedTotal := Number.value_axisSum_nonneg hp.va
      energyAllocatedConsumed := seriesNonneg_ofFn hconsumed
      energyAllocatedConsumedTotal := hconsumedTotal
      residualVolume := seriesNonneg_ofFn hresidual
      residualVolumeTotal := Number.value_axisSum_nonneg hresidual
      surplus := seriesNonneg_ofFn hsurplus
      surplusTotal := Number.value_axisSum_nonneg hsurplus
      sharingRate := seriesNonneg_ofFn (rateSeries_nonneg hconsumed hp.va _ _)
      sharingRateTotal := rateTotal_nonneg hconsumedTotal (Number.value_axisSum_nonneg hp.va)
      selfSufficiencyRate := seriesNonneg_ofFn (rateSeries_nonneg hconsumed hconsumption _ _)
      selfSufficiencyRateTotal :=
        rateTotal_nonneg hconsumedTotal (Number.value_axisSum_nonneg hconsumption) }
  obtain ⟨j, rfl⟩ := (List.mem_ofFn' _ _).mp hc
  exact consumer_physical hp _ _ j

end Result

/-! ## Runs -/

section Run

variable {key : SimulationKeyInput r.Number} {C VA : Mat r.Number} {consumerNames : List String}
  (hn : NonnegData key C VA consumerNames) (h : Accepted key C VA consumerNames)

include hn

theorem demand_nonneg (j : Fin consumerNames.length) (t : Fin C.cols) :
    0 ≤ (h.demand j t).value := by
  have hat := hn.consumption j t
  rwa [h.demand_eq j.isLt t.isLt] at hat

theorem supply_nonneg (t : Fin C.cols) : 0 ≤ (h.supply t).value := by
  have hat := hn.production t
  rwa [h.supply_eq t.isLt] at hat

theorem runPasses_nonneg : ∀ x ∈ h.runPasses, PassNonneg x.2 :=
  passes_nonneg (supply_nonneg hn h) (demand_nonneg hn h)
    (value_weights_nonneg (demand_nonneg hn h)) hn.shares hn.moded carryNonneg_none

end Run

/-- No rounding makes a quantity negative, leaves a consumer both short and with energy
it did not take, or lets its residual volume grow. -/
theorem volumes_rounded {key : SimulationKeyInput r.Number} {C VA : Mat r.Number}
    {consumerNames : List String} {res : KeySimResult r.Number}
    (hrun : runSimulation key C VA consumerNames = .ok res)
    (hn : NonnegData key C VA consumerNames) :
    (∀ it ∈ res.iterations, Physical it) ∧ res.iterations.IsChain (ResidualShrinks Number.value) := by
  obtain ⟨h, first, rest, hres, rfl⟩ := runSimulation_ok_iff.mp hrun
  have hpasses := runPasses_nonneg hn h
  show (∀ it ∈ first :: rest, Physical it) ∧ (first :: rest).IsChain (ResidualShrinks Number.value)
  rw [← hres, Accepted.results]
  constructor
  · intro it hit
    obtain ⟨x, hx, rfl⟩ := List.mem_map.mp hit
    exact iteration_physical x.1 (hpasses x hx)
  · rw [List.isChain_map]
    refine List.IsChain.imp_of_mem_imp (fun x y _ hy hfed => ?_)
      (isChain_passes h.supply h.demand (prorataWeights h.demand) key.iterations none)
    refine residual_shrinks x.1 y.1 fun j t => ?_
    rw [← hfed]
    exact residual_le j t (hpasses y hy)

/-- A `float64` near a decimal fraction. -/
abbrev float (q : ℚ) : binary64.Number := Number.of binary64 q

/-- A tenth to consume, and three tenths of seven tenths offered, twice. -/
def tenths : SimulationKeyInput binary64.Number := keyOfShares [1, 1] [⟨"A", float (3 / 10)⟩]

def tenth : Mat binary64.Number := ⟨1, 1, fun _ _ => float (1 / 10)⟩

def sevenTenths : Mat binary64.Number := ⟨1, 1, fun _ _ => float (7 / 10)⟩

theorem accepted_tenths : Accepted tenths tenth sevenTenths ["A"] :=
  ⟨List.cons_ne_nil _ _, List.cons_ne_nil _ _, rfl, ⟨le_rfl, rfl⟩, fun it hit => by
    rcases List.mem_cons.mp hit with rfl | hit
    · rfl
    · obtain rfl := List.mem_singleton.mp hit
      rfl⟩

theorem nonneg_tenths : NonnegData tenths tenth sevenTenths ["A"] := by
  have hfloat : ∀ q : ℚ, 0 ≤ q → 0 ≤ (float q).value := fun q hq =>
    Number.round_nonneg (r := binary64) hq
  have hconsumption : ∀ i t, 0 ≤ (tenth.get i t).value := fun _ _ => by
    show 0 ≤ (float (1 / 10)).value
    apply hfloat
    norm_num
  have hproduction : ∀ i t, 0 ≤ (sevenTenths.get i t).value := fun _ _ => by
    show 0 ≤ (float (7 / 10)).value
    apply hfloat
    norm_num
  refine
    { consumption := Mat.at_of_get (P := fun x : binary64.Number => 0 ≤ x.value) le_rfl hconsumption
      production := Mat.at_of_get (P := fun x : binary64.Number => 0 ≤ x.value) le_rfl hproduction 0
      shares := fun it hit => ?_
      moded := fun it hit j => ?_ }
  · rcases List.mem_cons.mp hit with rfl | hit
    · exact zero_le_one
    · obtain rfl := List.mem_singleton.mp hit
      exact zero_le_one
  · have hpct : pcts it ["A"] j = float (3 / 10) := by
      have hj : j = ⟨0, one_pos⟩ := Fin.ext (Nat.lt_one_iff.mp j.isLt)
      subst hj
      rcases List.mem_cons.mp hit with rfl | hit
      · rfl
      · obtain rfl := List.mem_singleton.mp hit
        rfl
    rw [hpct]
    exact .inl (hfloat (3 / 10) (by norm_num))

theorem volumes_rounded_tenths :
    ∃ res, runSimulation tenths tenth sevenTenths ["A"] = .ok res ∧
      (∀ it ∈ res.iterations, Physical it) ∧ res.iterations.IsChain (ResidualShrinks Number.value) := by
  obtain ⟨res, hrun⟩ := accepted_tenths.run_ok
  exact ⟨res, hrun, volumes_rounded hrun nonneg_tenths⟩

/-! ## Balance -/

/-- What consumer `j` consumes at timestep `t` in all iterations, added up exactly. -/
def consumedExactly (res : KeySimResult r.Number) (j t : Nat) : ℚ :=
  (res.iterations.map fun it => (it.consumerAt (·.energyAllocatedConsumed) j t).value).sum

/-- A consumer's demand is consumed or left by the last iteration, up to one unit of the
rounding for each iteration, relative to the demand. -/
theorem balance_rounded {key : SimulationKeyInput r.Number} {C VA : Mat r.Number}
    {consumerNames : List String} {res : KeySimResult r.Number}
    (hrun : runSimulation key C VA consumerNames = .ok res)
    (hn : NonnegData key C VA consumerNames) :
    ∃ last, res.iterations.getLast? = some last ∧
      ∀ j < consumerNames.length, ∀ t < C.cols,
        |consumedExactly res j t + (last.consumerAt (·.residualVolume) j t).value -
            (C.at j t).value| ≤
          key.iterations.length * (r.unit * (C.at j t).value) := by
  obtain ⟨h, first, rest, hres, rfl⟩ := runSimulation_ok_iff.mp hrun
  have hits : (keyResult key first rest).iterations = h.results := hres.symm
  have hx := List.getLast?_eq_some_getLast h.runPasses_ne_nil
  generalize h.runPasses.getLast h.runPasses_ne_nil = x at hx
  refine ⟨iterationResult consumerNames x.1 x.2, ?_, fun j hj t ht => ?_⟩
  · rw [hits, Accepted.results, List.getLast?_map, hx]
    rfl
  · have hbalance := passes_balance (supply_nonneg hn h) (demand_nonneg hn h)
      (value_weights_nonneg (demand_nonneg hn h)) hn.shares hn.moded
      carryNonneg_none hx ⟨j, hj⟩ ⟨t, ht⟩
    have hconsumed : consumedExactly (keyResult key first rest) j t =
        (h.runPasses.map fun x => (x.2.consumed ⟨j, hj⟩ ⟨t, ht⟩).value).sum := by
      rw [consumedExactly, hits, Accepted.results, List.map_map]
      refine congrArg List.sum (List.map_congr_left fun y _ => congrArg Number.value ?_)
      exact consumerAt_iterationResult y.1 y.2 (fun _ _ _ => rfl) hj ht
    rw [hconsumed, consumerAt_iterationResult x.1 x.2 (fun _ _ _ => rfl) hj ht,
      h.demand_eq hj ht]
    exact hbalance

/-- The tenth, to within `2⁻⁵²` of it. -/
theorem balance_rounded_tenths :
    ∃ res last, runSimulation tenths tenth sevenTenths ["A"] = .ok res ∧
      res.iterations.getLast? = some last ∧
      |consumedExactly res 0 0 + (last.consumerAt (·.residualVolume) 0 0).value -
          (float (1 / 10)).value| ≤ 2⁻¹ ^ 52 * (float (1 / 10)).value := by
  obtain ⟨res, hrun⟩ := accepted_tenths.run_ok
  obtain ⟨last, hlast, hbalance⟩ := balance_rounded hrun nonneg_tenths
  refine ⟨res, last, hrun, hlast, (hbalance 0 one_pos 0 one_pos).trans (le_of_eq ?_)⟩
  have hunit : binary64.unit = 2⁻¹ ^ 53 := rfl
  have htenth : tenth.at 0 0 = float (1 / 10) := rfl
  have hiterations : tenths.iterations.length = 2 := rfl
  rw [hunit, htenth, hiterations]
  ring

end SimulationKey.Theorems.RoundedVolumes
