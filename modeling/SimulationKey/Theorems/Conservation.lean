import SimulationKey.Simulation.Multipliers

/-!
# Production is conserved, except past an idle prorata iteration

Over exact arithmetic and non-negative data, take a key whose iterations are
all FIXED with fractions summing to 1 or all PRORATA:

* **where somebody consumes** — the energy self-consumed in all iterations plus
  the final surplus is the production times the sum of the iterations' shares;
* **where nobody consumes** — the guarded division gives every PRORATA consumer
  the weight 0, so a PRORATA iteration allocates nothing and carries nothing
  on: the final surplus is the production of the iterations after the last
  PRORATA one (`production_conserved`).
-/

namespace SimulationKey.Theorems.Conservation

open Kit

/-! ## The quantities -/

/-- The energy self-consumed at timestep `t`, over all iterations. -/
def consumedAt (res : KeySimResult ℚ) (t : Nat) : ℚ :=
  (res.iterations.map fun it => seriesAt it.energyAllocatedConsumed t).sum

/-- The last iteration's surplus at timestep `t`. -/
def surplusAt (res : KeySimResult ℚ) (t : Nat) : ℚ :=
  match res.iterations.getLast? with
  | some last => seriesAt last.surplus t
  | none => 0

/-- The sum of the iterations' shares of the production. -/
def shareSum (its : List (SimulationIterationInput ℚ)) : ℚ :=
  (its.map (·.energyAllocatedPercentage)).sum

/-- The consumption of all the run's consumers at timestep `t`. -/
def consumptionAt (C : Mat ℚ) (t : Nat) : ℚ := ∑ j ∈ Finset.range C.rows, C.at j t

/-- All FIXED with fractions summing to 1, or all PRORATA. -/
def Covers {n : Nat} (pct : Fin n → ℚ) : Prop :=
  (AllFixed pct ∧ ∑ j, pct j = 1) ∨ AllProrata pct

instance {n : Nat} (pct : Fin n → ℚ) : Decidable (Covers pct) := instDecidableOr

/-- The shares of the iterations after the last PRORATA one. -/
def keptShare (consumerNames : List String) (its : List (SimulationIterationInput ℚ)) : ℚ :=
  its.foldl (fun kept it =>
    if AllProrata (pcts it consumerNames) then 0 else kept + it.energyAllocatedPercentage) 0

/-! ## Reading them off the cascade -/

section Reading

variable {key : SimulationKeyInput ℚ} {C VA : Mat ℚ} {consumerNames : List String}
  {first : IterationSimResult ℚ} {rest : List (IterationSimResult ℚ)}

theorem consumedAt_eq (h : Accepted key C VA consumerNames) (hres : h.results = first :: rest)
    (t : Fin C.cols) :
    consumedAt (keyResult key first rest) t =
      Cascade.totalServed (h.rounds t) (h.demandAt t) 0 := by
  rw [← h.consumedSeries_sum t]
  show ((first :: rest).map _).sum = _
  rw [← hres, Accepted.results, List.map_map]
  exact congrArg List.sum (List.map_congr_left fun x _ => seriesAt_ofFn _ t)

theorem surplusAt_eq (h : Accepted key C VA consumerNames) (hres : h.results = first :: rest)
    (t : Fin C.cols) :
    surplusAt (keyResult key first rest) t =
      Cascade.leftover (h.rounds t) (h.demandAt t) 0 := by
  obtain ⟨x, hx, hlast⟩ := h.last_of_results hres
  have hget : (keyResult key first rest).iterations.getLast? =
      some (iterationResult consumerNames x.1 x.2) := by
    rw [← hlast]
    exact List.getLast?_eq_some_getLast (List.cons_ne_nil first rest)
  rw [surplusAt, hget, (h.last_pass hx t).2]
  exact seriesAt_ofFn _ t

theorem consumptionAt_eq (h : Accepted key C VA consumerNames) (t : Fin C.cols) :
    consumptionAt C t = ∑ j, h.demand j t := by
  rw [consumptionAt, h.rows, Finset.sum_range]
  exact Finset.sum_congr rfl fun j _ => h.demand_eq j.isLt t.isLt

theorem injected_sum (h : Accepted key C VA consumerNames) (t : Fin C.cols) :
    ((h.rounds t).map (·.injected)).sum = VA.at 0 t * shareSum key.iterations := by
  rw [h.supply_eq t.isLt, shareSum, Accepted.rounds, List.map_map, ← List.sum_map_mul_left]
  rfl

end Reading

/-! ## Somebody consumes -/

/-- Where somebody consumes, and in every FIXED iteration, the shares sum to 1. -/
theorem share_sum_eq_one {n T : Nat} {C : Fin n → Fin T → ℚ} {t : Fin T} {pct : Fin n → ℚ}
    (hcovers : Covers pct) (hconsumed : ∑ j, C j t ≠ 0 ∨ ¬ AllProrata pct) :
    ∑ j, multiplier (prorataWeights C) pct j t = 1 := by
  rcases hcovers with ⟨hfixed, hsum⟩ | hprorata
  · rw [hfixed.multiplier_sum, hsum]
  · rcases hconsumed with hconsumed | hnot
    · rw [hprorata.multiplier_sum, if_neg hconsumed]
    · exact absurd hprorata hnot

/-! ## Nobody consumes -/

/-- The carry of an idle timestep, as a multiple of the production. -/
theorem idle_carry {key : SimulationKeyInput ℚ} {C VA : Mat ℚ} {consumerNames : List String}
    (h : Accepted key C VA consumerNames) {t : Fin C.cols} (hidle : ∑ j, h.demand j t = 0)
    (its : List (SimulationIterationInput ℚ))
    (hcovers : ∀ it ∈ its, Covers (pcts it consumerNames)) (kept : ℚ) :
    (its.map (roundAt h.supply (prorataWeights h.demand) t)).foldl
        (fun left r => (r.injected + left) * ∑ j, r.share j) (h.supply t * kept) =
      h.supply t * its.foldl (fun kept it =>
        if AllProrata (pcts it consumerNames) then 0 else kept + it.energyAllocatedPercentage)
          kept := by
  induction its generalizing kept with
  | nil => rfl
  | cons it rest ih =>
      have ih := ih fun it' hit' => hcovers it' (List.mem_cons_of_mem _ hit')
      rw [List.map_cons, List.foldl_cons, List.foldl_cons, ← ih]
      congr 1
      simp only [roundAt]
      split_ifs with hprorata
      · rw [hprorata.multiplier_sum, if_pos hidle, mul_zero, mul_zero]
      · rw [share_sum_eq_one (hcovers it List.mem_cons_self) (.inr hprorata)]
        ring

/-- The production is conserved at every timestep where somebody consumes, and
at every timestep of a key without PRORATA iterations; where nobody consumes,
nothing is self-consumed and only the iterations after the last PRORATA one
leave a surplus. -/
theorem production_conserved {key : SimulationKeyInput ℚ} {C VA : Mat ℚ}
    {consumerNames : List String} {res : KeySimResult ℚ}
    (hrun : runSimulation key C VA consumerNames = .ok res)
    (hnonneg : NonnegRun key C VA consumerNames)
    (hcovers : ∀ it ∈ key.iterations, Covers (pcts it consumerNames)) :
    ∀ t < C.cols,
      (consumptionAt C t ≠ 0 ∨ (∀ it ∈ key.iterations, ¬ AllProrata (pcts it consumerNames)) →
        consumedAt res t + surplusAt res t = VA.at 0 t * shareSum key.iterations) ∧
      (consumptionAt C t = 0 →
        consumedAt res t = 0 ∧
          surplusAt res t = VA.at 0 t * keptShare consumerNames key.iterations) := by
  obtain ⟨h, first, rest, hres, rfl⟩ := runSimulation_ok_iff.mp hrun
  intro t ht
  have hconsumed := consumedAt_eq h hres ⟨t, ht⟩
  have hsurplus := surplusAt_eq h hres ⟨t, ht⟩
  have hconsumption := consumptionAt_eq h ⟨t, ht⟩
  simp only at hconsumed hsurplus hconsumption
  rw [hconsumed, hsurplus, hconsumption]
  refine ⟨fun hcase => ?_, fun hidle => ?_⟩
  · have hshare : ∀ r ∈ h.rounds ⟨t, ht⟩, ∑ j, r.share j = 1 := by
      intro r hr
      obtain ⟨it, hit, rfl⟩ := List.mem_map.mp hr
      exact share_sum_eq_one (hcovers it hit) (hcase.imp_right fun hfixed => hfixed it hit)
    rw [Cascade.served_add_leftover _ _ _ hshare, zero_add]
    exact injected_sum h ⟨t, ht⟩
  · have hdemand : h.demandAt ⟨t, ht⟩ = fun _ => 0 := by
      funext j
      exact (Finset.sum_eq_zero_iff_of_nonneg fun i _ => hnonneg.demand h i _).mp hidle j
        (Finset.mem_univ j)
    have hcarry := idle_carry h hidle key.iterations hcovers 0
    rw [mul_zero] at hcarry
    rw [hdemand, Cascade.totalServed_of_idle (hnonneg.rounds h _) le_rfl,
      Cascade.leftover_of_idle (hnonneg.rounds h _) le_rfl, h.supply_eq ht]
    exact ⟨rfl, hcarry⟩

/-- A FIXED iteration after a PRORATA one. -/
def prorataThenFixed : SimulationKeyInput ℚ :=
  { name := "k"
    description := "d"
    iterations := [⟨1, 1 / 2, [⟨"A", -1⟩]⟩, ⟨2, 1 / 2, [⟨"A", 1⟩]⟩] }

/-- With nobody consuming, the FIXED iteration's half of the production is kept. -/
theorem production_conserved_idle :
    ∃ res, runSimulation prorataThenFixed ⟨1, 1, fun _ _ => 0⟩ ⟨1, 1, fun _ _ => 1000⟩ ["A"] =
        .ok res ∧
      consumedAt res 0 = 0 ∧ surplusAt res 0 = 500 := by
  have h : Accepted prorataThenFixed ⟨1, 1, fun _ _ => 0⟩ ⟨1, 1, fun _ _ => 1000⟩ ["A"] :=
    ⟨by decide, by decide, rfl, ⟨le_rfl, rfl⟩, by decide⟩
  obtain ⟨res, hrun⟩ := h.run_ok
  have hconserved := production_conserved hrun
    { consumption := Mat.at_nonneg (by norm_num)
      production := Mat.at_nonneg (by norm_num) 0
      shares := by decide +kernel
      moded := by decide +kernel } (by decide +kernel) 0 one_pos
  obtain ⟨hconsumed, hsurplus⟩ := hconserved.2 (by decide +kernel)
  refine ⟨res, hrun, hconsumed, hsurplus.trans ?_⟩
  decide +kernel

/-- Two PRORATA consumers that consume nothing: 1000 go in, nothing comes out. -/
theorem idle_prorata_loses_production :
    ∃ res, runSimulation (F := ℚ) (keyOfShares [1] [⟨"A", -1⟩, ⟨"B", -1⟩]) ⟨2, 1, fun _ _ => 0⟩
        ⟨2, 1, fun _ _ => 1000⟩ ["A", "B"] = .ok res ∧
      NonnegRun (keyOfShares [1] [⟨"A", -1⟩, ⟨"B", -1⟩]) ⟨2, 1, fun _ _ => 0⟩
        ⟨2, 1, fun _ _ => 1000⟩ ["A", "B"] ∧
      (∀ it ∈ (keyOfShares [1] [⟨"A", -1⟩, ⟨"B", -1⟩]).iterations, Covers (pcts it ["A", "B"])) ∧
      consumedAt res 0 + surplusAt res 0 ≠
        Mat.at ⟨2, 1, fun _ _ => 1000⟩ 0 0 *
          shareSum (keyOfShares [1] [⟨"A", -1⟩, ⟨"B", -1⟩]).iterations := by
  have hrun : (runSimulation (F := ℚ) (keyOfShares [1] [⟨"A", -1⟩, ⟨"B", -1⟩])
      ⟨2, 1, fun _ _ => 0⟩ ⟨2, 1, fun _ _ => 1000⟩ ["A", "B"]).map
        (fun res => consumedAt res 0 + surplusAt res 0) = .ok 0 := by
    decide +kernel
  obtain ⟨res, hres, hzero⟩ := result_of_map hrun
  refine ⟨res, hres, ?_, by decide +kernel, ?_⟩
  · exact
      { consumption := Mat.at_nonneg (by norm_num)
        production := Mat.at_nonneg (by norm_num) 0
        shares := by decide +kernel
        moded := by decide +kernel }
  · rw [hzero]
    decide +kernel

end SimulationKey.Theorems.Conservation
