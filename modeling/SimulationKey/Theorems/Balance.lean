import SimulationKey.Simulation.Refinement

/-!
# Demand balances through the cascade

Over exact arithmetic, for any input `runSimulation` accepts and any signs:

* **per consumer** — the original consumption at a timestep is what the
  iterations let it self-consume plus the last iteration's residual;
* **per iteration** — the iteration's series are the sums of its consumers'
  series, its totals the sums of both (`Aggregates`);
* **per key** — the consumption total is the self-consumed total plus the
  residual total (`demand_balances`).
-/

namespace SimulationKey.Theorems.Balance

open Kit PyFloat

/-! ## Aggregates -/

/-- One series of an iteration, of length `T`, is the per-timestep sum of its
consumers' series; its total is the sum of that series and of the consumers'
totals, each of which is the sum of the consumer's series. -/
structure SumsOver (T : Nat) (it : IterationSimResult ℚ) (series : List ℚ) (total : ℚ)
    (ofConsumer : ConsumerSimResult ℚ → List ℚ) (totalOf : ConsumerSimResult ℚ → ℚ) : Prop where
  length : series.length = T
  lengths : ∀ c ∈ it.consumers, (ofConsumer c).length = T
  sums : ∀ t < T, seriesAt series t = (it.consumers.map fun c => seriesAt (ofConsumer c) t).sum
  total_eq : total = series.sum
  consumerTotals : ∀ c ∈ it.consumers, totalOf c = (ofConsumer c).sum
  totals : total = (it.consumers.map totalOf).sum

/-- An iteration lists the run's consumers and aggregates their series. -/
structure Aggregates (consumerNames : List String) (T : Nat) (it : IterationSimResult ℚ) :
    Prop where
  names : it.consumers.map (·.name) = consumerNames
  consumption : SumsOver T it it.consumption it.consumptionTotal
    (·.consumption) (·.consumptionTotal)
  consumed : SumsOver T it it.energyAllocatedConsumed it.energyAllocatedConsumedTotal
    (·.energyAllocatedConsumed) (·.energyAllocatedConsumedTotal)
  residual : SumsOver T it it.residualVolume it.residualVolumeTotal
    (·.residualVolume) (·.residualVolumeTotal)
  surplus : SumsOver T it it.surplus it.surplusTotal (·.surplus) (·.surplusTotal)

section Iteration

variable {T : Nat} {consumerNames : List String} (it : SimulationIterationInput ℚ)
  (p : Pass ℚ consumerNames.length T)

/-- A series of an iteration result filled from one array is that array's
column sums. -/
theorem sumsOver_of_array (f : Fin consumerNames.length → Fin T → ℚ)
    {ofConsumer : ConsumerSimResult ℚ → List ℚ} {totalOf : ConsumerSimResult ℚ → ℚ}
    (hseries : ∀ name pct j, ofConsumer (consumerResult p name pct j) = List.ofFn (f j))
    (htotal : ∀ name pct j, totalOf (consumerResult p name pct j) = axisSum .series (f j)) :
    SumsOver T (iterationResult consumerNames it p)
      (List.ofFn fun t => axisSum (.column consumerNames.length T) fun j => f j t)
      (axisSum .series fun t => axisSum (.column consumerNames.length T) fun j => f j t)
      ofConsumer totalOf := by
  refine
    { length := List.length_ofFn
      lengths := ?_
      sums := ?_
      total_eq := rfl
      consumerTotals := ?_
      totals := ?_ }
  · intro c hc
    obtain ⟨j, rfl⟩ := (List.mem_ofFn' _ _).mp hc
    rw [hseries, List.length_ofFn]
  · intro t ht
    rw [seriesAt_ofFn_lt _ ht]
    simp only [iterationResult, List.map_ofFn, List.sum_ofFn, Function.comp_def, hseries,
      seriesAt_ofFn_lt _ ht, axisSum_rat]
  · intro c hc
    obtain ⟨j, rfl⟩ := (List.mem_ofFn' _ _).mp hc
    rw [htotal, hseries]
    rfl
  · simp only [iterationResult, List.map_ofFn, List.sum_ofFn, Function.comp_def, htotal,
      axisSum_rat]
    exact Finset.sum_comm

theorem aggregates_iterationResult :
    Aggregates consumerNames T (iterationResult consumerNames it p) :=
  { names := by
      simp only [iterationResult, List.map_ofFn, Function.comp_def]
      exact List.ofFn_get consumerNames
    consumption := sumsOver_of_array it p p.consumption (fun _ _ _ => rfl) fun _ _ _ => rfl
    consumed := sumsOver_of_array it p p.consumed (fun _ _ _ => rfl) fun _ _ _ => rfl
    residual := sumsOver_of_array it p p.residual (fun _ _ _ => rfl) fun _ _ _ => rfl
    surplus := sumsOver_of_array it p p.surplus (fun _ _ _ => rfl) fun _ _ _ => rfl }

end Iteration

/-! ## The balance -/

/-- Every consumer's consumption is self-consumed in some iteration or left as
the last iteration's residual; iterations and key aggregate accordingly. -/
theorem demand_balances {key : SimulationKeyInput ℚ} {C VA : Mat ℚ}
    {consumerNames : List String} {res : KeySimResult ℚ}
    (hrun : runSimulation key C VA consumerNames = .ok res) :
    ∃ last, res.iterations.getLast? = some last ∧
      (∀ j < consumerNames.length, ∀ t < C.cols,
        C.at j t =
          (res.iterations.map fun it => it.consumerAt (·.energyAllocatedConsumed) j t).sum +
            last.consumerAt (·.residualVolume) j t) ∧
      (∀ it ∈ res.iterations, Aggregates consumerNames C.cols it) ∧
      res.consumptionTotal = res.energyAllocatedConsumedTotal + res.residualVolumeTotal := by
  obtain ⟨h, first, rest, hres, rfl⟩ := runSimulation_ok_iff.mp hrun
  obtain ⟨x, hx, hlast⟩ := h.last_of_results hres
  refine ⟨iterationResult consumerNames x.1 x.2, ?_, ?_, ?_, ?_⟩
  · rw [← hlast]
    exact List.getLast?_eq_some_getLast (List.cons_ne_nil first rest)
  · intro j hj t ht
    have hconsumed : ((first :: rest).map fun it =>
        it.consumerAt (·.energyAllocatedConsumed) j t) =
          h.runPasses.map fun y => y.2.consumed ⟨j, hj⟩ ⟨t, ht⟩ := by
      rw [← hres, Accepted.results, List.map_map]
      exact List.map_congr_left fun y _ =>
        consumerAt_iterationResult y.1 y.2 (fun _ _ _ => rfl) hj ht
    have hresidual : (iterationResult consumerNames x.1 x.2).consumerAt (·.residualVolume) j t =
        x.2.residual ⟨j, hj⟩ ⟨t, ht⟩ :=
      consumerAt_iterationResult x.1 x.2 (fun _ _ _ => rfl) hj ht
    show C.at j t = ((first :: rest).map _).sum + _
    rw [hconsumed, hresidual, h.demand_eq hj ht]
    exact (h.demand_balance hx _ _).symm
  · intro it hit
    have hit : it ∈ h.results := by rw [hres]; exact hit
    obtain ⟨y, -, rfl⟩ := List.mem_map.mp hit
    exact aggregates_iterationResult y.1 y.2
  · rw [h.consumptionTotal_eq hres, h.consumedTotal_eq hres, h.residualTotal_eq hres,
      ← Finset.sum_add_distrib]
    exact Finset.sum_congr rfl fun t _ =>
      (Cascade.totalServed_add_finalUnmet (h.rounds t) (h.demandAt t) 0).symm

/-- A surplus carried into a second iteration. -/
theorem demand_balances_two_iterations :
    ∃ res, runSimulation (F := ℚ) (keyOfShares [1 / 2, 1 / 2] [⟨"A", 1⟩]) ⟨1, 1, fun _ _ => 100⟩
        ⟨1, 1, fun _ _ => 1000⟩ ["A"] = .ok res ∧
      res.consumptionTotal = res.energyAllocatedConsumedTotal + res.residualVolumeTotal := by
  have h : Accepted (F := ℚ) (keyOfShares [1 / 2, 1 / 2] [⟨"A", 1⟩]) ⟨1, 1, fun _ _ => 100⟩
      ⟨1, 1, fun _ _ => 1000⟩ ["A"] :=
    ⟨by decide, by decide, rfl, ⟨le_rfl, rfl⟩, by decide⟩
  obtain ⟨res, hrun⟩ := h.run_ok
  obtain ⟨-, -, -, -, htotals⟩ := demand_balances hrun
  exact ⟨res, hrun, htotals⟩

end SimulationKey.Theorems.Balance
