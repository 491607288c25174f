import SimulationKey.Simulation.Multipliers

/-!
# Prorata sharing wastes nothing

The weights of a run are computed once, from the consumption matrix, and reused
in every iteration. While all iterations are PRORATA, the demand an iteration
starts from is still in proportion to that matrix at each timestep, so the
weights still fit it: the iteration takes the smaller of its demand and its
supply (`prorata_prefix_frugal`).
-/

namespace SimulationKey.Theorems.Prorata

open Kit PyFloat

/-- Every consumer of the iteration is PRORATA. -/
def IsProrata (it : SimulationIterationInput ℚ) : Prop :=
  ∀ c ∈ it.consumers, c.energyAllocatedPercentage = -1

section Run

variable {key : SimulationKeyInput ℚ} {C VA : Mat ℚ} {consumerNames : List String}

/-- The first `k` rounds of a run share in proportion to the consumption. -/
theorem share_of_prorata (h : Accepted key C VA consumerNames) {k : Nat}
    (hprorata : ∀ it ∈ key.iterations.take k, IsProrata it) (t : Fin C.cols) :
    ∀ r ∈ (h.rounds t).take k, ∀ j, r.share j = h.demandAt t j / ∑ i, h.demandAt t i := by
  intro r hr j
  rw [Accepted.rounds, ← List.map_take] at hr
  obtain ⟨it, hit, rfl⟩ := List.mem_map.mp hr
  have hpcts : AllProrata (pcts it consumerNames) :=
    allProrata_of_listed (h.listed it (List.mem_of_mem_take hit)) (hprorata it hit)
  show multiplier (prorataWeights h.demand) (pcts it consumerNames) j t = _
  rw [hpcts.multiplier_eq, prorataWeights_rat]
  rfl

/-- The first `k` levels at a timestep are frugal. -/
theorem frugal_of_prorata (h : Accepted key C VA consumerNames)
    (hC : ∀ j t, 0 ≤ C.at j t) (hVA : ∀ t, 0 ≤ VA.at 0 t)
    (hshares : ∀ it ∈ key.iterations, 0 ≤ it.energyAllocatedPercentage) {k : Nat}
    (hprorata : ∀ it ∈ key.iterations.take k, IsProrata it) (t : Fin C.cols) :
    ∀ l ∈ (Cascade.levels (h.rounds t) (h.demandAt t) 0).take k, l.Frugal := by
  have hdemand : ∀ j, 0 ≤ h.demandAt t j := fun j => by
    have hat := hC j t
    rwa [h.demand_eq j.isLt t.isLt] at hat
  have hsupply : 0 ≤ h.supply t := by
    have hat := hVA t
    rwa [h.supply_eq t.isLt] at hat
  have hinjected : ∀ r ∈ (h.rounds t).take k, 0 ≤ r.injected := by
    intro r hr
    obtain ⟨it, hit, rfl⟩ := List.mem_map.mp (List.mem_of_mem_take hr)
    exact mul_nonneg hsupply (hshares it hit)
  have hone : h.demandAt t = fun j => 1 * h.demandAt t j := by
    funext j
    rw [one_mul]
  intro l hl
  rw [Cascade.levels_take, hone] at hl
  exact Cascade.frugal_of_proportional hdemand hinjected (share_of_prorata h hprorata t) 1 le_rfl
    l hl

end Run

/-- While the iterations are all PRORATA, each of them consumes the smaller of
its demand and its supply at every timestep: it does not leave both residual
demand and energy nobody took. -/
theorem prorata_prefix_frugal {key : SimulationKeyInput ℚ} {C VA : Mat ℚ}
    {consumerNames : List String} {res : KeySimResult ℚ} (hC : ∀ j t, 0 ≤ C.at j t)
    (hVA : ∀ t, 0 ≤ VA.at 0 t)
    (hshares : ∀ it ∈ key.iterations, 0 ≤ it.energyAllocatedPercentage)
    (hrun : runSimulation key C VA consumerNames = .ok res) {k : Nat}
    (hprorata : ∀ it ∈ key.iterations.take (k + 1), IsProrata it) {it : IterationSimResult ℚ}
    (hit : res.iterations[k]? = some it) :
    it.energyAllocatedConsumed = List.zipWith min it.consumption it.energyAllocated ∧
      ∀ t, ¬ (0 < seriesAt it.residualVolume t ∧
        seriesAt it.energyAllocatedConsumed t < seriesAt it.energyAllocated t) := by
  obtain ⟨h, first, rest, hres, rfl⟩ := runSimulation_ok_iff.mp hrun
  rw [show (keyResult key first rest).iterations = first :: rest from rfl, ← hres] at hit
  obtain ⟨x, hx, rfl, hlevel⟩ := h.pass_of_result hit
  have hfrugal : ∀ t, x.2.consumedSeries t = min (x.2.consumptionSeries t) (x.2.va t) := by
    intro t
    rw [x.2.consumedSeries_eq, Pass.consumptionSeries, axisSum_rat]
    refine frugal_of_prorata h hC hVA hshares hprorata t _ ?_
    refine List.mem_of_getElem? (i := k) ?_
    rw [List.getElem?_take_of_lt (Nat.lt_succ_self k)]
    exact hlevel t
  constructor
  · show List.ofFn x.2.consumedSeries =
      List.zipWith min (List.ofFn x.2.consumptionSeries) (List.ofFn x.2.va)
    rw [zipWith_ofFn]
    exact congrArg List.ofFn (funext hfrugal)
  · rintro t ⟨hshort, hidle⟩
    simp only [iterationResult] at hshort hidle
    by_cases ht : t < C.cols
    · rw [seriesAt_ofFn_lt _ ht, x.2.residualSeries_eq] at hshort
      rw [seriesAt_ofFn_lt _ ht, seriesAt_ofFn_lt _ ht] at hidle
      have hmin := hfrugal ⟨t, ht⟩
      rcases min_choice (x.2.consumptionSeries ⟨t, ht⟩) (x.2.va ⟨t, ht⟩) with hle | hle
      · rw [hmin, hle] at hshort
        linarith
      · rw [hmin, hle] at hidle
        exact lt_irrefl _ hidle
    · rw [seriesAt_ofFn_ge _ (not_lt.mp ht)] at hshort
      exact lt_irrefl _ hshort

/-- Two iterations over 200 and 300 of demand: the second finds 60 and 90 left. -/
theorem prorata_prefix_frugal_two :
    ∃ res it, runSimulation (F := ℚ) (keyOfShares [7 / 16, 9 / 16] [⟨"A", -1⟩, ⟨"B", -1⟩])
        ⟨2, 1, fun j _ => if j = 0 then 200 else 300⟩ ⟨1, 1, fun _ _ => 800⟩ ["A", "B"] = .ok res ∧
      res.iterations[1]? = some it ∧
      it.energyAllocatedConsumed = List.zipWith min it.consumption it.energyAllocated ∧
      ∀ t, ¬ (0 < seriesAt it.residualVolume t ∧
        seriesAt it.energyAllocatedConsumed t < seriesAt it.energyAllocated t) := by
  have hrun : (runSimulation (F := ℚ) (keyOfShares [7 / 16, 9 / 16] [⟨"A", -1⟩, ⟨"B", -1⟩])
      ⟨2, 1, fun j _ => if j = 0 then 200 else 300⟩ ⟨1, 1, fun _ _ => 800⟩ ["A", "B"]).map
        (·.iterations.length) = .ok 2 := by
    decide +kernel
  obtain ⟨res, hres, htwo⟩ := result_of_map hrun
  have hsecond : 1 < res.iterations.length := by omega
  refine ⟨res, _, hres, List.getElem?_eq_getElem hsecond,
    prorata_prefix_frugal (k := 1) (Mat.at_nonneg fun j _ => ?_)
      (Mat.at_nonneg (fun _ _ => by norm_num) 0) (by decide +kernel) hres ?_
      (List.getElem?_eq_getElem hsecond)⟩
  · show (0 : ℚ) ≤ if j = 0 then 200 else 300
    split <;> norm_num
  · unfold IsProrata
    decide +kernel

end SimulationKey.Theorems.Prorata
