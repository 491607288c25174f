import SimulationKey.Simulation.Multipliers
import SimulationKey.Simulation.Readings

/-!
# Volumes stay physical

Over non-negative data and a key of non-negative shares whose consumers are
each FIXED or PRORATA, every iteration is physical (`Physical`):

* **signs** — no series has a negative value;
* **residual or surplus** — no consumer has both at a timestep;
* **rates** — the series of a rate is the guarded pointwise quotient, also where
  a zero total shortcuts it.

From one iteration to the next, no consumer's residual volume grows.
-/

namespace SimulationKey.Theorems.Volumes

open Kit PyFloat

/-! ## What an iteration promises -/

/-- A volume is a rational number. -/
abbrev volume (x : ℚ) : ℚ := x

structure ConsumerPhysical (c : ConsumerSimResult ℚ) : Prop extends ConsumerNonneg volume c where
  residual_or_surplus : ∀ t, ¬ (0 < seriesAt c.residualVolume t ∧ 0 < seriesAt c.surplus t)

structure Physical (it : IterationSimResult ℚ) : Prop extends IterationNonneg volume it where
  consumers : ∀ c ∈ it.consumers, ConsumerPhysical c
  sharing_quotient :
    it.sharingRate = List.zipWith safeDivide it.energyAllocatedConsumed it.energyAllocated
  selfSufficiency_quotient :
    it.selfSufficiencyRate = List.zipWith safeDivide it.energyAllocatedConsumed it.consumption

/-! ## Series -/

section Series

variable {T : Nat}

/-- A series of non-negative values with total 0 is 0 throughout. -/
theorem eq_zero_of_total {f : Fin T → ℚ} (hf : ∀ t, 0 ≤ f t) (htotal : axisSum .series f = 0)
    (t : Fin T) : f t = 0 := by
  rw [axisSum_rat] at htotal
  exact (Finset.sum_eq_zero_iff_of_nonneg fun t _ => hf t).mp htotal t (Finset.mem_univ t)

/-- Both branches of a rate give the guarded quotient. -/
theorem rateSeries_eq {num den : Fin T → ℚ} (hnum : ∀ t, 0 ≤ num t) (hden : ∀ t, 0 ≤ den t) :
    rateSeries num den (axisSum .series num) (axisSum .series den) =
      fun t => safeDivide (num t) (den t) := by
  funext t
  unfold rateSeries
  split_ifs with hzero
  · rw [safeDivide_rat]
    rcases hzero with hden0 | hnum0
    · rw [eq_zero_of_total hden hden0 t, div_zero]
    · rw [eq_zero_of_total hnum hnum0 t, zero_div]
  · rfl

end Series

/-! ## One pass -/

section Pass

variable {T : Nat} {consumerNames : List String} (it : SimulationIterationInput ℚ)
  {p : Pass ℚ consumerNames.length T}

theorem consumer_physical (hp : ∀ t, (p.levelAt t).Nonneg) (name : String) (pct : ℚ)
    (j : Fin consumerNames.length) : ConsumerPhysical (consumerResult p name pct j) := by
  have hresidual : ∀ t, 0 ≤ p.residual j t := fun t => by
    rw [p.residual_eq]
    exact (p.levelAt t).unmet_nonneg j
  have hsurplus : ∀ t, 0 ≤ p.surplus j t := fun t => by
    rw [p.surplus_eq]
    exact (p.levelAt t).excess_nonneg j
  refine
    { consumption := seriesNonneg_ofFn fun t => (hp t).demand j
      energyAllocated := seriesNonneg_ofFn fun t => (hp t).offered j
      energyAllocatedConsumed := seriesNonneg_ofFn fun t => (hp t).served_nonneg j
      residualVolume := seriesNonneg_ofFn hresidual
      surplus := seriesNonneg_ofFn hsurplus
      residual_or_surplus := ?_ }
  rintro t ⟨hr, hs⟩
  simp only [consumerResult] at hr hs
  by_cases ht : t < T
  · rw [seriesAt_ofFn_lt _ ht, p.residual_eq] at hr
    rw [seriesAt_ofFn_lt _ ht, p.surplus_eq] at hs
    rcases (p.levelAt ⟨t, ht⟩).unmet_eq_zero_or j with hzero | hzero
    · exact absurd hzero hr.ne'
    · exact absurd hzero hs.ne'
  · rw [seriesAt_ofFn_ge _ (not_lt.mp ht)] at hr
    exact lt_irrefl _ hr

theorem iteration_physical (hp : ∀ t, (p.levelAt t).Nonneg) :
    Physical (iterationResult consumerNames it p) := by
  have hconsumption : ∀ t, 0 ≤ p.consumptionSeries t := fun t => by
    rw [Pass.consumptionSeries, axisSum_rat]
    exact Finset.sum_nonneg fun j _ => (hp t).demand j
  have hconsumed : ∀ t, 0 ≤ p.consumedSeries t := fun t => by
    rw [p.consumedSeries_eq]
    exact Finset.sum_nonneg fun j _ => (hp t).served_nonneg j
  have hva : ∀ t, 0 ≤ p.va t := fun t => (hp t).supply
  have hresidual : ∀ t, 0 ≤ p.residualSeries t := fun t => by
    rw [Pass.residualSeries, axisSum_rat]
    refine Finset.sum_nonneg fun j _ => ?_
    rw [p.residual_eq]
    exact (p.levelAt t).unmet_nonneg j
  have hsurplus : ∀ t, 0 ≤ p.surplusSeries t := fun t => by
    rw [p.surplusSeries_eq]
    exact (p.levelAt t).excess_sum_nonneg
  have hsharing := rateSeries_eq hconsumed hva
  have hself := rateSeries_eq hconsumed hconsumption
  have hquotient : ∀ {den : Fin T → ℚ}, (∀ t, 0 ≤ den t) → ∀ t,
      0 ≤ safeDivide (p.consumedSeries t) (den t) := fun hden t => by
    rw [safeDivide_rat]
    exact div_nonneg (hconsumed t) (hden t)
  refine
    { consumption := seriesNonneg_ofFn hconsumption
      energyAllocated := seriesNonneg_ofFn hva
      energyAllocatedConsumed := seriesNonneg_ofFn hconsumed
      residualVolume := seriesNonneg_ofFn hresidual
      surplus := seriesNonneg_ofFn hsurplus
      sharingRate := ?_
      selfSufficiencyRate := ?_
      consumers := ?_
      sharing_quotient := ?_
      selfSufficiency_quotient := ?_ }
  · simp only [iterationResult, hsharing]
    exact seriesNonneg_ofFn (hquotient hva)
  · simp only [iterationResult, hself]
    exact seriesNonneg_ofFn (hquotient hconsumption)
  · intro c hc
    obtain ⟨j, rfl⟩ := (List.mem_ofFn' _ _).mp hc
    exact consumer_physical hp _ _ j
  · simp only [iterationResult, hsharing, zipWith_ofFn]
  · simp only [iterationResult, hself, zipWith_ofFn]

end Pass

/-! ## Runs -/

/-- Every iteration of a run over non-negative quantities is physical, and from
each to the next no residual volume grows. -/
theorem volumes_physical {key : SimulationKeyInput ℚ} {C VA : Mat ℚ}
    {consumerNames : List String} {res : KeySimResult ℚ} (hC : ∀ j t, 0 ≤ C.at j t)
    (hVA : ∀ t, 0 ≤ VA.at 0 t)
    (hshares : ∀ it ∈ key.iterations, 0 ≤ it.energyAllocatedPercentage)
    (hmodes : ∀ it ∈ key.iterations, ∀ c ∈ it.consumers,
      0 ≤ c.energyAllocatedPercentage ∨ c.energyAllocatedPercentage = -1)
    (hrun : runSimulation key C VA consumerNames = .ok res) :
    (∀ it ∈ res.iterations, Physical it) ∧ res.iterations.IsChain (ResidualShrinks volume) := by
  obtain ⟨h, first, rest, hres, rfl⟩ := runSimulation_ok_iff.mp hrun
  have hn : NonnegRun key C VA consumerNames :=
    { consumption := hC
      production := hVA
      shares := hshares
      moded := fun it hit j =>
        pcts_of_listed (P := fun pct => 0 ≤ pct ∨ pct = -1) (.inl le_rfl) (hmodes it hit) _ j }
  have hlevels : ∀ x ∈ h.runPasses, ∀ t, (x.2.levelAt t).Nonneg := fun x hx t => hn.levels h hx t
  show (∀ it ∈ first :: rest, Physical it) ∧ (first :: rest).IsChain (ResidualShrinks volume)
  rw [← hres, Accepted.results]
  constructor
  · intro it hit
    obtain ⟨x, hx, rfl⟩ := List.mem_map.mp hit
    exact iteration_physical x.1 (hlevels x hx)
  · rw [List.isChain_map]
    refine List.IsChain.imp_of_mem_imp (fun x y hx hy hfed => ?_)
      (isChain_passes h.supply h.demand (prorataWeights h.demand) key.iterations none)
    refine residual_shrinks x.1 y.1 fun j t => ?_
    show y.2.residual j t ≤ x.2.residual j t
    rw [y.2.residual_eq, ← hfed]
    exact (hlevels y hy t).unmet_le j

/-- A FIXED and a PRORATA consumer over a night and a day. -/
theorem volumes_physical_mixed :
    ∃ res, runSimulation (F := ℚ) (keyOfShares [1 / 2, 1 / 2] [⟨"A", 3 / 10⟩, ⟨"B", -1⟩])
        ⟨2, 2, fun j _ => if j = 0 then 160 else 300⟩
        ⟨1, 2, fun _ t => if t = 0 then 0 else 1000⟩ ["A", "B"] = .ok res ∧
      (∀ it ∈ res.iterations, Physical it) ∧ res.iterations.IsChain (ResidualShrinks volume) := by
  have h : Accepted (F := ℚ) (keyOfShares [1 / 2, 1 / 2] [⟨"A", 3 / 10⟩, ⟨"B", -1⟩])
      ⟨2, 2, fun j _ => if j = 0 then 160 else 300⟩
      ⟨1, 2, fun _ t => if t = 0 then 0 else 1000⟩ ["A", "B"] :=
    ⟨by decide, by decide, rfl, ⟨le_rfl, rfl⟩, by decide⟩
  obtain ⟨res, hrun⟩ := h.run_ok
  refine ⟨res, hrun, volumes_physical (Mat.at_nonneg fun j _ => ?_)
    (Mat.at_nonneg (fun _ t => ?_) 0) (by decide +kernel) (by decide +kernel) hrun⟩
  · show (0 : ℚ) ≤ if j = 0 then 160 else 300
    split <;> norm_num
  · show (0 : ℚ) ≤ if t = 0 then 0 else 1000
    split <;> norm_num

end SimulationKey.Theorems.Volumes
