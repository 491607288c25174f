import SimulationKey.Simulation.Multipliers

/-!
# What an iteration hands out

Over exact arithmetic and non-negative data, with any mix of FIXED and PRORATA
consumers, an iteration allocates its available energy times its FIXED
fractions plus its PRORATA consumers' part of the total consumption
(`Handed.allocated`). Where that factor is at most 1 it hands out no more than
it has and its sharing rate is a rate; an iteration of one mode always is such
(`allocation_bounded`). A mix is not: a FIXED fraction of 1 next to a PRORATA
consumer hands the energy out twice.
-/

namespace SimulationKey.Theorems.Sharing

open Kit PyFloat

/-- The energy allocated to all consumers of an iteration at timestep `t`. -/
def allocatedAt (r : IterationSimResult ℚ) (t : Nat) : ℚ :=
  (r.consumers.map fun c => seriesAt c.energyAllocated t).sum

/-- The factor an iteration hands out at timestep `t`: its FIXED fractions and
its PRORATA consumers' part of the total consumption. -/
def handedFraction (C : Mat ℚ) (consumerNames : List String) (it : SimulationIterationInput ℚ)
    (t : Nat) : ℚ :=
  fixedFraction (pcts it consumerNames) +
    prorataFraction (fun j : Fin consumerNames.length => C.at j t) (pcts it consumerNames)

/-- What the result of an iteration says about the energy it handed out. -/
structure Handed (C : Mat ℚ) (consumerNames : List String) (it : SimulationIterationInput ℚ)
    (r : IterationSimResult ℚ) : Prop where
  allocated : ∀ t < C.cols,
    allocatedAt r t = seriesAt r.energyAllocated t * handedFraction C consumerNames it t
  within : ∀ t < C.cols, handedFraction C consumerNames it t ≤ 1 →
    allocatedAt r t ≤ seriesAt r.energyAllocated t
  length : r.sharingRate.length = C.cols
  rate : ∀ t < C.cols, handedFraction C consumerNames it t ≤ 1 →
    0 ≤ seriesAt r.sharingRate t ∧ seriesAt r.sharingRate t ≤ 1
  rateTotal : (∀ t < C.cols, handedFraction C consumerNames it t ≤ 1) →
    0 ≤ r.sharingRateTotal ∧ r.sharingRateTotal ≤ 1

/-! ## Rates -/

section Rates

variable {T : Nat} {num den : Fin T → ℚ}

theorem rateSeries_mem {numTotal denTotal : ℚ} {t : Fin T} (hnum : 0 ≤ num t)
    (hle : num t ≤ den t) :
    0 ≤ rateSeries num den numTotal denTotal t ∧ rateSeries num den numTotal denTotal t ≤ 1 := by
  unfold rateSeries
  split_ifs
  · exact ⟨le_rfl, zero_le_one⟩
  · simp only [safeDivide_rat]
    exact ⟨div_nonneg hnum (hnum.trans hle), div_le_one_of_le₀ hle (hnum.trans hle)⟩

theorem rateTotal_mem {numTotal denTotal : ℚ} (hnum : 0 ≤ numTotal) (hle : numTotal ≤ denTotal) :
    0 ≤ rateTotal numTotal denTotal ∧ rateTotal numTotal denTotal ≤ 1 := by
  unfold rateTotal
  split_ifs
  · exact ⟨le_rfl, zero_le_one⟩
  · exact ⟨div_nonneg hnum (hnum.trans hle), div_le_one_of_le₀ hle (hnum.trans hle)⟩

end Rates

/-! ## One iteration -/

section Iteration

variable {key : SimulationKeyInput ℚ} {C VA : Mat ℚ} {consumerNames : List String}
  (h : Accepted key C VA consumerNames)

theorem handedFraction_eq (it : SimulationIterationInput ℚ) (t : Fin C.cols) :
    handedFraction C consumerNames it t =
      ∑ j, multiplier (prorataWeights h.demand) (pcts it consumerNames) j t := by
  rw [multiplier_sum, handedFraction]
  congr 2
  funext j
  exact h.demand_eq j.isLt t.isLt

/-- An iteration of one mode hands out at most what it has. -/
theorem handedFraction_le_one {it : SimulationIterationInput ℚ}
    (hmode : OneMode (pcts it consumerNames)) (t : Nat) :
    handedFraction C consumerNames it t ≤ 1 :=
  hmode.handed_le_one _

/-- Every pass of the run hands out by its factor. -/
theorem handed_of_pass (hn : NonnegRun key C VA consumerNames)
    {x : SimulationIterationInput ℚ × Pass ℚ consumerNames.length C.cols}
    (hx : x ∈ h.runPasses) :
    Handed C consumerNames x.1 (iterationResult consumerNames x.1 x.2) := by
  have hallocatedAt : ∀ t : Fin C.cols,
      allocatedAt (iterationResult consumerNames x.1 x.2) t = ∑ j, x.2.allocated j t := by
    intro t
    simp only [allocatedAt, iterationResult, List.map_ofFn, List.sum_ofFn, Function.comp_def]
    exact Finset.sum_congr rfl fun j _ => seriesAt_ofFn _ t
  have hva : ∀ t : Fin C.cols,
      seriesAt (iterationResult consumerNames x.1 x.2).energyAllocated t = x.2.va t :=
    fun t => seriesAt_ofFn _ t
  have hfactor : ∀ t : Fin C.cols,
      ∑ j, x.2.allocated j t = x.2.va t * handedFraction C consumerNames x.1 t := by
    intro t
    rw [handedFraction_eq h, Finset.mul_sum]
    exact Finset.sum_congr rfl fun j _ => h.allocated_eq hx j t
  have hwithin : ∀ t : Fin C.cols, handedFraction C consumerNames x.1 t ≤ 1 →
      ∑ j, x.2.allocated j t ≤ x.2.va t := fun t hone => by
    rw [hfactor t]
    exact mul_le_of_le_one_right (hn.levels h hx t).supply hone
  have hconsumed : ∀ t : Fin C.cols, 0 ≤ x.2.consumedSeries t := fun t => by
    rw [x.2.consumedSeries_eq]
    exact Finset.sum_nonneg fun j _ => (hn.levels h hx t).served_nonneg j
  have hserved : ∀ t : Fin C.cols, x.2.consumedSeries t ≤ ∑ j, x.2.allocated j t := fun t => by
    rw [x.2.consumedSeries_eq]
    exact Finset.sum_le_sum fun j _ => min_le_right _ _
  exact
    { allocated := fun t ht => by
        have hsum := hallocatedAt ⟨t, ht⟩
        rw [hfactor ⟨t, ht⟩, ← hva ⟨t, ht⟩] at hsum
        exact hsum
      within := fun t ht hone => by
        have hle := hwithin ⟨t, ht⟩ hone
        rw [← hallocatedAt ⟨t, ht⟩, ← hva ⟨t, ht⟩] at hle
        exact hle
      length := List.length_ofFn
      rate := fun t ht hone => by
        simp only [iterationResult, seriesAt_ofFn_lt _ ht]
        exact rateSeries_mem (hconsumed _) ((hserved _).trans (hwithin ⟨t, ht⟩ hone))
      rateTotal := fun hone => by
        simp only [iterationResult, axisSum_rat]
        exact rateTotal_mem (Finset.sum_nonneg fun t _ => hconsumed t)
          (Finset.sum_le_sum fun t _ => (hserved t).trans (hwithin t (hone t t.isLt))) }

end Iteration

/-- Every iteration of the result hands out by the factor of its key iteration,
which is at most 1 for an iteration of one mode. -/
theorem allocation_bounded {key : SimulationKeyInput ℚ} {C VA : Mat ℚ}
    {consumerNames : List String} {res : KeySimResult ℚ}
    (hrun : runSimulation key C VA consumerNames = .ok res)
    (hnonneg : NonnegRun key C VA consumerNames) :
    List.Forall₂ (Handed C consumerNames) key.iterations res.iterations ∧
      ∀ it ∈ key.iterations, OneMode (pcts it consumerNames) →
        ∀ t < C.cols, handedFraction C consumerNames it t ≤ 1 := by
  obtain ⟨h, first, rest, hres, rfl⟩ := runSimulation_ok_iff.mp hrun
  refine ⟨?_, fun it _ hmode t _ => handedFraction_le_one hmode t⟩
  show List.Forall₂ _ _ (first :: rest)
  rw [← hres]
  exact h.forall₂_results fun x hx => handed_of_pass h hnonneg hx

/-- A FIXED consumer of one half next to a PRORATA one with half of the demand:
the energy is handed out exactly. -/
theorem allocation_bounded_half :
    ∃ res, runSimulation (F := ℚ) (keyOfShares [1] [⟨"A", 1 / 2⟩, ⟨"B", -1⟩])
        ⟨2, 1, fun _ _ => 1000⟩ ⟨2, 1, fun _ _ => 1000⟩ ["A", "B"] = .ok res ∧
      ∃ r ∈ res.iterations, 0 ≤ r.sharingRateTotal ∧ r.sharingRateTotal ≤ 1 := by
  have h : Accepted (F := ℚ) (keyOfShares [1] [⟨"A", 1 / 2⟩, ⟨"B", -1⟩])
      ⟨2, 1, fun _ _ => 1000⟩ ⟨2, 1, fun _ _ => 1000⟩ ["A", "B"] :=
    ⟨by decide, by decide, rfl, ⟨by decide, rfl⟩, by decide⟩
  obtain ⟨res, hrun⟩ := h.run_ok
  have hbounded := (allocation_bounded hrun
    { consumption := Mat.at_nonneg (by norm_num)
      production := Mat.at_nonneg (by norm_num) 0
      shares := by decide +kernel
      moded := by decide +kernel }).1
  cases hits : res.iterations with
  | nil =>
      rw [hits] at hbounded
      cases hbounded
  | cons r rest =>
      rw [hits] at hbounded
      obtain ⟨hhanded, -⟩ := List.forall₂_cons.mp hbounded
      exact ⟨res, hrun, r, by rw [hits]; exact List.mem_cons_self,
        hhanded.rateTotal (by decide +kernel)⟩

/-- A FIXED fraction of 1 next to a PRORATA consumer: 1500 of 1000 are handed
out, and shared. -/
theorem mixed_iteration_overallocates :
    ∃ res, runSimulation (F := ℚ) (keyOfShares [1] [⟨"A", 1⟩, ⟨"B", -1⟩])
        ⟨2, 1, fun _ _ => 1000⟩ ⟨2, 1, fun _ _ => 1000⟩ ["A", "B"] = .ok res ∧
      NonnegRun (keyOfShares [1] [⟨"A", 1⟩, ⟨"B", -1⟩]) ⟨2, 1, fun _ _ => 1000⟩
        ⟨2, 1, fun _ _ => 1000⟩ ["A", "B"] ∧
      (∀ it ∈ (keyOfShares [1] [⟨"A", 1⟩, ⟨"B", -1⟩]).iterations,
        fixedFraction (pcts it ["A", "B"]) ≤ 1) ∧
      (res.iterations.map fun r =>
        (allocatedAt r 0, seriesAt r.energyAllocated 0, r.sharingRateTotal)) =
          [(1500, 1000, 3 / 2)] := by
  have hrun : (runSimulation (F := ℚ) (keyOfShares [1] [⟨"A", 1⟩, ⟨"B", -1⟩])
      ⟨2, 1, fun _ _ => 1000⟩ ⟨2, 1, fun _ _ => 1000⟩ ["A", "B"]).map
        (fun res => res.iterations.map fun r =>
          (allocatedAt r 0, seriesAt r.energyAllocated 0, r.sharingRateTotal)) =
        .ok [(1500, 1000, 3 / 2)] := by
    decide +kernel
  obtain ⟨res, hres, hvalues⟩ := result_of_map hrun
  refine ⟨res, hres, ?_, by decide +kernel, hvalues⟩
  exact
    { consumption := Mat.at_nonneg (by norm_num)
      production := Mat.at_nonneg (by norm_num) 0
      shares := by decide +kernel
      moded := by decide +kernel }

end SimulationKey.Theorems.Sharing
