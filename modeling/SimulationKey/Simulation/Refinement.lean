import SimulationKey.Kit.Cascade
import SimulationKey.Simulation.Compute

/-!
# The solve refines a cascade

`runSimulation` succeeds exactly on `Accepted` inputs, and its result is then a
function of the list of passes. Over exact arithmetic, the passes read at one
timestep are the levels of the supply cascade whose rounds inject the
iteration's share of the production and offer it by the consumers' multipliers
(`levels_passes`): every numeric property of the solve is a fact about
cascades.
-/

namespace SimulationKey

open Kit PyFloat

variable {F : Type} [PyFloat F]

/-! ## The passes -/

section Passes

variable {T : Nat} {consumerNames : List String} (production : Fin T → F)
  (C weights : Fin consumerNames.length → Fin T → F)

/-- The iterations run, each with its pass. -/
def passes : List (SimulationIterationInput F) → Option (Carry F consumerNames.length T) →
    List (SimulationIterationInput F × Pass F consumerNames.length T)
  | [], _ => []
  | it :: rest, prev =>
    let p := allocationPass production C weights it.energyAllocatedPercentage
      (pcts it consumerNames) prev
    (it, p) :: passes rest (some p.carry)

@[simp] theorem passes_map_fst (its : List (SimulationIterationInput F))
    (prev : Option (Carry F consumerNames.length T)) :
    (passes production C weights its prev).map Prod.fst = its := by
  induction its generalizing prev with
  | nil => rfl
  | cons it rest ih => rw [passes, List.map_cons, ih]

/-- Every pass hands out its supply by the multipliers of its iteration. -/
theorem allocated_of_mem_passes {its : List (SimulationIterationInput F)}
    {prev : Option (Carry F consumerNames.length T)}
    {x : SimulationIterationInput F × Pass F consumerNames.length T}
    (hx : x ∈ passes production C weights its prev) (j : Fin consumerNames.length) (t : Fin T) :
    x.2.allocated j t = x.2.va t * multiplier weights (pcts x.1 consumerNames) j t := by
  induction its generalizing prev with
  | nil => cases hx
  | cons it rest ih =>
      rcases List.mem_cons.mp hx with rfl | hx
      · rfl
      · exact ih hx

/-- Every pass after the first starts from the demand the one before left. -/
theorem isChain_passes (its : List (SimulationIterationInput F))
    (prev : Option (Carry F consumerNames.length T)) :
    (passes production C weights its prev).IsChain
      fun x y => y.2.consumption = x.2.residual := by
  induction its generalizing prev with
  | nil => exact .nil
  | cons it rest ih =>
      cases rest with
      | nil => exact .singleton _
      | cons it' rest => exact .cons_cons rfl (ih _)

/-- The loop succeeds exactly when every iteration lists every consumer, with
the results of the passes. -/
theorem runIterations_ok_iff (its : List (SimulationIterationInput F))
    (prev : Option (Carry F consumerNames.length T)) (results : List (IterationSimResult F)) :
    runIterations consumerNames production C weights its prev = .ok results ↔
      (∀ it ∈ its, missingConsumer it consumerNames = none) ∧
        results = (passes production C weights its prev).map
          fun x => iterationResult consumerNames x.1 x.2 := by
  induction its generalizing prev results with
  | nil => simp [runIterations, passes, eq_comm]
  | cons it rest ih =>
      rw [runIterations, passes]
      cases hmissing : missingConsumer it consumerNames with
      | some name => simp [hmissing]
      | none =>
          have ih := ih (some (allocationPass production C weights it.energyAllocatedPercentage
            (pcts it consumerNames) prev).carry)
          cases hrest : runIterations consumerNames production C weights rest
              (some (allocationPass production C weights it.energyAllocatedPercentage
                (pcts it consumerNames) prev).carry) with
          | error e =>
              refine iff_of_false (by simp [hrest]) ?_
              rintro ⟨hlisted, -⟩
              have hok := (ih _).mpr
                ⟨fun it' hit' => hlisted it' (List.mem_cons_of_mem _ hit'), rfl⟩
              rw [hrest] at hok
              cases hok
          | ok tail =>
              obtain ⟨hlisted, rfl⟩ := (ih tail).mp hrest
              simp only [hrest, Except.ok.injEq, List.forall_mem_cons, hmissing, true_and,
                List.map_cons]
              exact ⟨fun h => ⟨hlisted, h.symm⟩, fun h => h.2.symm⟩

end Passes

/-! ## Accepted inputs -/

/-- What `runSimulation` checks before and during the loop. -/
structure Accepted (key : SimulationKeyInput F) (C VA : Mat F) (consumerNames : List String) :
    Prop where
  iterations : key.iterations ≠ []
  consumers : consumerNames ≠ []
  rows : C.rows = consumerNames.length
  production : 1 ≤ VA.rows ∧ VA.cols = C.cols
  listed : ∀ it ∈ key.iterations, missingConsumer it consumerNames = none

namespace Accepted

variable {key : SimulationKeyInput F} {C VA : Mat F} {consumerNames : List String}

/-- The consumption of consumer `j` at timestep `t`. -/
def demand (h : Accepted key C VA consumerNames) (j : Fin consumerNames.length) (t : Fin C.cols) :
    F :=
  C.get (j.cast h.rows.symm) t

/-- The production at timestep `t`. -/
def supply (h : Accepted key C VA consumerNames) (t : Fin C.cols) : F :=
  VA.get ⟨0, h.production.1⟩ (t.cast h.production.2.symm)

/-- The passes of the run. -/
def runPasses (h : Accepted key C VA consumerNames) :
    List (SimulationIterationInput F × Pass F consumerNames.length C.cols) :=
  passes h.supply h.demand (prorataWeights h.demand) key.iterations none

/-- The iteration results of the run. -/
def results (h : Accepted key C VA consumerNames) : List (IterationSimResult F) :=
  h.runPasses.map fun x => iterationResult consumerNames x.1 x.2

theorem demand_eq (h : Accepted key C VA consumerNames) {j t : Nat}
    (hj : j < consumerNames.length) (ht : t < C.cols) : C.at j t = h.demand ⟨j, hj⟩ ⟨t, ht⟩ := by
  rw [Mat.at, dif_pos ⟨by rw [h.rows]; exact hj, ht⟩]
  rfl

theorem supply_eq (h : Accepted key C VA consumerNames) {t : Nat} (ht : t < C.cols) :
    VA.at 0 t = h.supply ⟨t, ht⟩ := by
  rw [Mat.at, dif_pos ⟨h.production.1, by rw [h.production.2]; exact ht⟩]
  rfl

theorem allocated_eq (h : Accepted key C VA consumerNames)
    {x : SimulationIterationInput F × Pass F consumerNames.length C.cols} (hx : x ∈ h.runPasses)
    (j : Fin consumerNames.length) (t : Fin C.cols) :
    x.2.allocated j t =
      x.2.va t * multiplier (prorataWeights h.demand) (pcts x.1 consumerNames) j t :=
  allocated_of_mem_passes _ _ _ hx j t

theorem runPasses_fst (h : Accepted key C VA consumerNames) :
    h.runPasses.map Prod.fst = key.iterations :=
  passes_map_fst _ _ _ _ _

/-- What holds of each pass relates the key's iterations to the results. -/
theorem forall₂_results (h : Accepted key C VA consumerNames)
    {R : SimulationIterationInput F → IterationSimResult F → Prop}
    (hR : ∀ x ∈ h.runPasses, R x.1 (iterationResult consumerNames x.1 x.2)) :
    List.Forall₂ R key.iterations h.results := by
  rw [← h.runPasses_fst, results, List.forall₂_map_left_iff, List.forall₂_map_right_iff,
    List.forall₂_same]
  exact hR

theorem runPasses_ne_nil (h : Accepted key C VA consumerNames) : h.runPasses ≠ [] := by
  intro hnil
  refine h.iterations ?_
  rw [← h.runPasses_fst]
  exact List.map_eq_nil_iff.mpr hnil

end Accepted

/-- The run succeeds exactly on accepted inputs, with the roll-up of its
passes' results. -/
theorem runSimulation_ok_iff {key : SimulationKeyInput F} {C VA : Mat F}
    {consumerNames : List String} {res : KeySimResult F} :
    runSimulation key C VA consumerNames = .ok res ↔
      ∃ h : Accepted key C VA consumerNames, ∃ first rest,
        h.results = first :: rest ∧ res = keyResult key first rest := by
  unfold runSimulation
  by_cases hits : key.iterations = []
  · simp only [hits, List.isEmpty_nil, if_true, reduceCtorEq, false_iff]
    rintro ⟨h, -⟩
    exact h.iterations hits
  by_cases hnames : consumerNames = []
  · simp only [hnames, List.isEmpty_nil, if_true, reduceCtorEq, List.isEmpty_iff, hits, if_false,
      false_iff]
    rintro ⟨h, -⟩
    exact h.consumers rfl
  simp only [List.isEmpty_iff, hits, hnames, if_false]
  by_cases hC : C.rows = consumerNames.length
  swap
  · simp only [hC, dif_neg, not_false_eq_true, reduceCtorEq, false_iff]
    rintro ⟨h, -⟩
    exact hC h.rows
  by_cases hVA : 1 ≤ VA.rows ∧ VA.cols = C.cols
  swap
  · simp only [hC, hVA, dif_pos, dif_neg, not_false_eq_true, reduceCtorEq, false_iff]
    rintro ⟨h, -⟩
    exact hVA h.production
  simp only [hC, hVA, and_self, dif_pos]
  generalize hloop : runIterations consumerNames _ _ _ key.iterations none = loop
  cases loop with
  | error e =>
      simp only [reduceCtorEq, false_iff]
      rintro ⟨h, -⟩
      have hok := (runIterations_ok_iff h.supply h.demand (prorataWeights h.demand) key.iterations
        none _).mpr ⟨h.listed, rfl⟩
      exact absurd (hok.symm.trans hloop) (by simp)
  | ok results =>
      obtain ⟨hlisted, hresults⟩ := (runIterations_ok_iff _ _ _ _ _ _).mp hloop
      have hacc : Accepted key C VA consumerNames := ⟨hits, hnames, hC, hVA, hlisted⟩
      have hresults : results = hacc.results := hresults
      constructor
      · intro hres
        cases results with
        | nil => cases hres
        | cons first rest =>
            refine ⟨hacc, first, rest, hresults.symm, ?_⟩
            simpa using hres.symm
      · rintro ⟨h, first, rest, hcons, rfl⟩
        have hcons' : results = first :: rest := hresults.trans hcons
        subst hcons'
        rfl

theorem Accepted.run_ok {key : SimulationKeyInput F} {C VA : Mat F} {consumerNames : List String}
    (h : Accepted key C VA consumerNames) :
    ∃ res, runSimulation key C VA consumerNames = .ok res := by
  cases hres : h.results with
  | nil => exact absurd (List.map_eq_nil_iff.mp hres) h.runPasses_ne_nil
  | cons first rest => exact ⟨_, runSimulation_ok_iff.mpr ⟨h, first, rest, hres, rfl⟩⟩

/-! ## One timestep over exact arithmetic -/

section Exact

variable {T : Nat} {consumerNames : List String} (production : Fin T → ℚ)
  (C weights : Fin consumerNames.length → Fin T → ℚ)

/-- An iteration read at a timestep: it injects its share of the production and
offers it by its consumers' multipliers. -/
def roundAt (t : Fin T) (it : SimulationIterationInput ℚ) :
    Cascade.Round (Fin consumerNames.length) ℚ :=
  { injected := production t * it.energyAllocatedPercentage
    share := fun j => multiplier weights (pcts it consumerNames) j t }

/-- A pass read at a timestep. -/
def Pass.levelAt {n : Nat} (t : Fin T) (p : Pass ℚ n T) : Cascade.Level (Fin n) ℚ :=
  { supply := p.va t
    demand := fun j => p.consumption j t
    offered := fun j => p.allocated j t }

/-- The supply the loop carries into an iteration. -/
def carriedAt {n : Nat} (t : Fin T) : Option (Carry ℚ n T) → ℚ
  | none => 0
  | some prev => prev.surplus t

section Level

variable {n : Nat} (p : Pass ℚ n T) (j : Fin n) (t : Fin T)

theorem Pass.residual_eq : p.residual j t = (p.levelAt t).unmet j := relu_rat _

theorem Pass.surplus_eq : p.surplus j t = (p.levelAt t).excess j := relu_rat _

theorem Pass.consumedSeries_eq : p.consumedSeries t = ∑ j, (p.levelAt t).served j :=
  axisSum_rat _

theorem Pass.residualSeries_eq :
    p.residualSeries t = p.consumptionSeries t - p.consumedSeries t := by
  rw [p.consumedSeries_eq, Pass.residualSeries, Pass.consumptionSeries, axisSum_rat, axisSum_rat,
    ← Finset.sum_sub_distrib]
  refine Finset.sum_congr rfl fun j _ => ?_
  have hsplit := (p.levelAt t).served_add_unmet j
  show p.residual j t = (p.levelAt t).demand j - (p.levelAt t).served j
  rw [p.residual_eq, ← hsplit, add_sub_cancel_left]

theorem Pass.surplusSeries_eq : p.surplusSeries t = ∑ j, (p.levelAt t).excess j := by
  rw [Pass.surplusSeries, axisSum_rat]
  exact Finset.sum_congr rfl fun j _ => p.surplus_eq j t

end Level

/-- One pass is one poured round. -/
theorem allocationPass_levelAt (it : SimulationIterationInput ℚ)
    (prev : Option (Carry ℚ consumerNames.length T)) (t : Fin T) :
    (allocationPass production C weights it.energyAllocatedPercentage (pcts it consumerNames)
        prev).levelAt t =
      Cascade.pour (roundAt production weights t it) (fun j => consumptionMatrix C prev j t)
        (carriedAt t prev) := by
  cases prev with
  | none => simp [allocationPass, Pass.levelAt, Cascade.pour, roundAt, vaSeries, carriedAt]
  | some prev => rfl

/-- The passes at a timestep are the levels of the cascade. -/
theorem levels_passes (its : List (SimulationIterationInput ℚ))
    (prev : Option (Carry ℚ consumerNames.length T)) (t : Fin T) :
    (passes production C weights its prev).map (fun x => x.2.levelAt t) =
      Cascade.levels (its.map (roundAt production weights t))
        (fun j => consumptionMatrix C prev j t) (carriedAt t prev) := by
  induction its generalizing prev with
  | nil => rfl
  | cons it rest ih =>
      have hpass := allocationPass_levelAt production C weights it prev t
      rw [passes, List.map_cons, List.map_cons, Cascade.levels, ih, hpass]
      congr 2
      · funext j
        rw [← hpass]
        exact Pass.residual_eq _ j t
      · rw [← hpass]
        exact Pass.surplusSeries_eq _ t

end Exact

/-! ## A run, one timestep at a time -/

/-- The first iteration's share of the production. -/
def firstShare (key : SimulationKeyInput ℚ) : ℚ :=
  match key.iterations.head? with
  | some it => it.energyAllocatedPercentage
  | none => 0

namespace Accepted

variable {key : SimulationKeyInput ℚ} {C VA : Mat ℚ} {consumerNames : List String}
  (h : Accepted key C VA consumerNames)

/-- The rounds of the run at timestep `t`. -/
def rounds (t : Fin C.cols) : List (Cascade.Round (Fin consumerNames.length) ℚ) :=
  key.iterations.map (roundAt h.supply (prorataWeights h.demand) t)

/-- The demands of the run at timestep `t`. -/
def demandAt (t : Fin C.cols) : Fin consumerNames.length → ℚ := fun j => h.demand j t

theorem levels_runPasses (t : Fin C.cols) :
    h.runPasses.map (fun x => x.2.levelAt t) = Cascade.levels (h.rounds t) (h.demandAt t) 0 :=
  levels_passes h.supply h.demand (prorataWeights h.demand) key.iterations none t

theorem consumed_sum (j : Fin consumerNames.length) (t : Fin C.cols) :
    (h.runPasses.map fun x => x.2.consumed j t).sum =
      ((Cascade.levels (h.rounds t) (h.demandAt t) 0).map fun l => l.served j).sum := by
  rw [← h.levels_runPasses t, List.map_map]
  rfl

theorem consumedSeries_sum (t : Fin C.cols) :
    (h.runPasses.map fun x => x.2.consumedSeries t).sum =
      Cascade.totalServed (h.rounds t) (h.demandAt t) 0 := by
  rw [Cascade.totalServed, ← h.levels_runPasses t, List.map_map]
  exact congrArg List.sum (List.map_congr_left fun x _ => x.2.consumedSeries_eq t)

/-- The `k`-th result is that of the `k`-th pass, which at every timestep is the
`k`-th level of the cascade. -/
theorem pass_of_result {k : Nat} {r : IterationSimResult ℚ} (hr : h.results[k]? = some r) :
    ∃ x, h.runPasses[k]? = some x ∧ r = iterationResult consumerNames x.1 x.2 ∧
      ∀ t, (Cascade.levels (h.rounds t) (h.demandAt t) 0)[k]? = some (x.2.levelAt t) := by
  rw [results, List.getElem?_map, Option.map_eq_some_iff] at hr
  obtain ⟨x, hx, rfl⟩ := hr
  refine ⟨x, hx, rfl, fun t => ?_⟩
  rw [← h.levels_runPasses t, List.getElem?_map, hx]
  rfl

/-- The last pass leaves what the cascade leaves, at every timestep. -/
theorem last_pass {x : SimulationIterationInput ℚ × Pass ℚ consumerNames.length C.cols}
    (hx : h.runPasses.getLast? = some x) (t : Fin C.cols) :
    (∀ j, Cascade.finalUnmet (h.rounds t) (h.demandAt t) 0 j = x.2.residual j t) ∧
      Cascade.leftover (h.rounds t) (h.demandAt t) 0 = x.2.surplusSeries t := by
  have hlast : (Cascade.levels (h.rounds t) (h.demandAt t) 0).getLast? =
      some (x.2.levelAt t) := by
    rw [← h.levels_runPasses t, List.getLast?_map, hx]
    rfl
  obtain ⟨hunmet, hleft⟩ := Cascade.final_of_getLast? hlast
  refine ⟨fun j => ?_, ?_⟩
  · rw [hunmet, x.2.residual_eq j t]
  · rw [hleft, x.2.surplusSeries_eq t]

/-- Every consumer's demand is consumed in some iteration or left unmet. -/
theorem demand_balance {x : SimulationIterationInput ℚ × Pass ℚ consumerNames.length C.cols}
    (hx : h.runPasses.getLast? = some x) (j : Fin consumerNames.length) (t : Fin C.cols) :
    (h.runPasses.map fun y => y.2.consumed j t).sum + x.2.residual j t = h.demand j t := by
  rw [h.consumed_sum, ← (h.last_pass hx t).1 j]
  exact Cascade.taken_add_finalUnmet (h.rounds t) (h.demandAt t) 0 j

/-- The first pass starts from the consumption matrix and its own share of the
production. -/
theorem first_pass {x : SimulationIterationInput ℚ × Pass ℚ consumerNames.length C.cols}
    (hx : h.runPasses.head? = some x) :
    x.2.consumption = h.demand ∧
      x.2.va = fun t => h.supply t * x.1.energyAllocatedPercentage := by
  unfold runPasses at hx
  cases hits : key.iterations with
  | nil => simp [hits, passes] at hx
  | cons it rest =>
      rw [hits, passes] at hx
      obtain rfl := Option.some.inj hx
      exact ⟨rfl, rfl⟩

/-! ### The key's totals -/

variable {first : IterationSimResult ℚ} {rest : List (IterationSimResult ℚ)}

/-- The passes behind a non-empty list of results. -/
theorem passes_of_results (hres : h.results = first :: rest) :
    ∃ x, h.runPasses.head? = some x ∧ first = iterationResult consumerNames x.1 x.2 := by
  unfold results at hres
  cases hpasses : h.runPasses with
  | nil => simp [hpasses] at hres
  | cons x xs =>
      rw [hpasses, List.map_cons, List.cons.injEq] at hres
      exact ⟨x, rfl, hres.1.symm⟩

/-- The last result is that of the last pass. -/
theorem last_of_results (hres : h.results = first :: rest) :
    ∃ x, h.runPasses.getLast? = some x ∧
      (first :: rest).getLast (List.cons_ne_nil first rest) =
        iterationResult consumerNames x.1 x.2 := by
  have hx := List.getLast?_eq_some_getLast h.runPasses_ne_nil
  refine ⟨_, hx, ?_⟩
  have hlast : (first :: rest).getLast? = some (iterationResult consumerNames
      (h.runPasses.getLast h.runPasses_ne_nil).1 (h.runPasses.getLast h.runPasses_ne_nil).2) := by
    rw [← hres, results, List.getLast?_map, hx]
    rfl
  rw [List.getLast?_eq_some_getLast (List.cons_ne_nil first rest)] at hlast
  exact Option.some.inj hlast

theorem consumptionTotal_eq (hres : h.results = first :: rest) :
    (keyResult key first rest).consumptionTotal = ∑ t, ∑ j, h.demandAt t j := by
  obtain ⟨x, hx, rfl⟩ := h.passes_of_results hres
  simp only [keyResult, iterationResult, Pass.consumptionSeries, axisSum_rat, (h.first_pass hx).1]
  rfl

theorem energyAllocatedTotal_eq (hres : h.results = first :: rest) :
    (keyResult key first rest).energyAllocatedTotal = (∑ t, h.supply t) * firstShare key := by
  obtain ⟨x, hx, rfl⟩ := h.passes_of_results hres
  have hhead : key.iterations.head? = some x.1 := by
    rw [← h.runPasses_fst, List.head?_map]
    exact congrArg (Option.map Prod.fst) hx
  simp only [keyResult, iterationResult, axisSum_rat, (h.first_pass hx).2, Finset.sum_mul,
    firstShare, hhead]

theorem consumedTotal_eq (hres : h.results = first :: rest) :
    (keyResult key first rest).energyAllocatedConsumedTotal =
      ∑ t, Cascade.totalServed (h.rounds t) (h.demandAt t) 0 := by
  have hmap : (first :: rest).map (·.energyAllocatedConsumedTotal) =
      h.runPasses.map fun x => ∑ t, x.2.consumedSeries t := by
    rw [← hres, results, List.map_map]
    exact List.map_congr_left fun x _ => axisSum_rat _
  show ((first :: rest).map (·.energyAllocatedConsumedTotal)).sum = _
  rw [hmap, Cascade.list_sum_comm]
  exact Finset.sum_congr rfl fun t _ => h.consumedSeries_sum t

theorem residualTotal_eq (hres : h.results = first :: rest) :
    (keyResult key first rest).residualVolumeTotal =
      ∑ t, ∑ j, Cascade.finalUnmet (h.rounds t) (h.demandAt t) 0 j := by
  obtain ⟨x, hx, hlast⟩ := h.last_of_results hres
  simp only [keyResult, hlast]
  simp only [iterationResult, Pass.residualSeries, axisSum_rat, (h.last_pass hx _).1]

end Accepted

/-! ## Reading the results -/

section Reading

variable {T : Nat} {consumerNames : List String} (it : SimulationIterationInput F)
  (p : Pass F consumerNames.length T)

/-- A series that `consumerResult` fills from an array is that array, row by row. -/
theorem consumerAt_iterationResult {series : ConsumerSimResult F → List F}
    {f : Fin consumerNames.length → Fin T → F}
    (hseries : ∀ name pct j, series (consumerResult p name pct j) = List.ofFn (f j))
    {j t : Nat} (hj : j < consumerNames.length) (ht : t < T) :
    (iterationResult consumerNames it p).consumerAt series j t = f ⟨j, hj⟩ ⟨t, ht⟩ := by
  have hget : (iterationResult consumerNames it p).consumers[j]? =
      some (consumerResult p (consumerNames.get ⟨j, hj⟩) (pcts it consumerNames ⟨j, hj⟩)
        ⟨j, hj⟩) := by
    simp [iterationResult, hj]
  rw [IterationSimResult.consumerAt, hget]
  show seriesAt (series (consumerResult p _ _ _)) t = _
  rw [hseries, seriesAt_ofFn_lt _ ht]

end Reading

end SimulationKey
