import SimulationKey.Kit.CascadeOrder
import SimulationKey.Simulation.Multipliers

/-!
# More production, less consumption

Two runs of one key over exact arithmetic, the second over no less production and no
more consumption at any timestep. Through every iteration it leaves no participant with
more unmet demand, and one whose own consumption is the same self-consumes at least as
much (`no_worse`): nobody loses by a new panel, or by another's savings.

The weights of PRORATA iterations come from the consumption. So where that differs
between the runs the key is to be all FIXED; where it does not, any key will do.
-/

namespace SimulationKey.Theorems.MoreProduction

open Kit PyFloat

/-- What consumer `j` self-consumes at timestep `t` in the first `k` iterations. -/
def consumedWithin (res : KeySimResult ℚ) (k j t : Nat) : ℚ :=
  ((res.iterations.take k).map fun it => it.consumerAt (·.energyAllocatedConsumed) j t).sum

/-- Data of two runs: the second has no less production and no more consumption. -/
structure Eases (key : SimulationKeyInput ℚ) (consumerNames : List String) (C VA C' VA' : Mat ℚ) :
    Prop where
  timesteps : C'.cols = C.cols
  consumption : ∀ j t, C'.at j t ≤ C.at j t
  production : ∀ t, VA.at 0 t ≤ VA'.at 0 t
  weights : (∀ j t, C'.at j t = C.at j t) ∨
    ∀ it ∈ key.iterations, AllFixed (pcts it consumerNames)

section Run

variable {key : SimulationKeyInput ℚ} {C VA : Mat ℚ} {consumerNames : List String}
  {first : IterationSimResult ℚ} {rest : List (IterationSimResult ℚ)}

theorem consumedWithin_eq (h : Accepted key C VA consumerNames) (hres : h.results = first :: rest)
    (k : Nat) (j : Fin consumerNames.length) (t : Fin C.cols) :
    consumedWithin (keyResult key first rest) k j t =
      ((Cascade.levels ((h.rounds t).take k) (h.demandAt t) 0).map fun l => l.served j).sum := by
  rw [← Cascade.levels_take, ← h.levels_runPasses t, ← List.map_take, List.map_map]
  show (((first :: rest).take k).map _).sum = _
  rw [← hres, Accepted.results, ← List.map_take, List.map_map]
  refine congrArg List.sum (List.map_congr_left fun x _ => ?_)
  show (iterationResult consumerNames x.1 x.2).consumerAt (·.energyAllocatedConsumed) j t =
    x.2.consumed j t
  exact consumerAt_iterationResult x.1 x.2 (fun _ _ _ => rfl) j.isLt t.isLt

theorem surplusTotal_eq (h : Accepted key C VA consumerNames) (hres : h.results = first :: rest) :
    (keyResult key first rest).surplusTotal =
      ∑ t, Cascade.leftover (h.rounds t) (h.demandAt t) 0 := by
  obtain ⟨x, hx, hlast⟩ := h.last_of_results hres
  simp only [keyResult, hlast]
  simp only [iterationResult, axisSum_rat, (h.last_pass hx _).2]

end Run

/-! ## The rounds of the two runs -/

section TwoRuns

variable {key : SimulationKeyInput ℚ} {C VA C' VA' : Mat ℚ} {consumerNames : List String}
  (h : Accepted key C VA consumerNames) (h' : Accepted key C' VA' consumerNames)
  (hn : NonnegRun key C VA consumerNames) (heases : Eases key consumerNames C VA C' VA')
  {t : Nat} (ht : t < C.cols) (ht' : t < C'.cols)

include heases

theorem demandAt_le (j : Fin consumerNames.length) :
    h'.demandAt ⟨t, ht'⟩ j ≤ h.demandAt ⟨t, ht⟩ j := by
  have hle := heases.consumption j t
  rwa [h.demand_eq j.isLt ht, h'.demand_eq j.isLt ht'] at hle

/-- The second run shares its supply the same way. -/
theorem multiplier_eq {it : SimulationIterationInput ℚ} (hit : it ∈ key.iterations)
    (j : Fin consumerNames.length) :
    multiplier (prorataWeights h'.demand) (pcts it consumerNames) j ⟨t, ht'⟩ =
      multiplier (prorataWeights h.demand) (pcts it consumerNames) j ⟨t, ht⟩ := by
  rcases heases.weights with hsame | hfixed
  · have hdemand : ∀ i : Fin consumerNames.length, h'.demand i ⟨t, ht'⟩ = h.demand i ⟨t, ht⟩ := by
      intro i
      have hat := hsame i t
      rwa [h.demand_eq i.isLt ht, h'.demand_eq i.isLt ht'] at hat
    simp only [multiplier, prorataWeights_rat, hdemand]
  · have hpct : -1 < pcts it consumerNames j :=
      lt_of_lt_of_le neg_one_lt_zero (hfixed it hit j)
    rw [multiplier, multiplier, if_pos hpct, if_pos hpct]

include hn in
theorem rounds_below :
    List.Forall₂ Cascade.Round.Below (h.rounds ⟨t, ht⟩) (h'.rounds ⟨t, ht'⟩) := by
  rw [Accepted.rounds, Accepted.rounds, List.forall₂_map_left_iff, List.forall₂_map_right_iff,
    List.forall₂_same]
  intro it hit
  have hsupply := heases.production t
  rw [h.supply_eq ht, h'.supply_eq ht'] at hsupply
  exact
    { injected := mul_le_mul_of_nonneg_right hsupply (hn.shares it hit)
      share := fun j => multiplier_eq h h' heases ht ht' hit j
      nonneg := multiplier_nonneg h.demand ⟨t, ht⟩ (hn.demand h) (hn.moded it hit) }

include hn in
/-- The passes behind two results of one place, at a timestep. -/
theorem levels_of_results {k : Nat} {it it' : IterationSimResult ℚ} (hit : h.results[k]? = some it)
    (hit' : h'.results[k]? = some it') :
    ∃ (x : SimulationIterationInput ℚ × Pass ℚ consumerNames.length C.cols)
      (x' : SimulationIterationInput ℚ × Pass ℚ consumerNames.length C'.cols),
      it = iterationResult consumerNames x.1 x.2 ∧
      it' = iterationResult consumerNames x'.1 x'.2 ∧
      (x.2.levelAt ⟨t, ht⟩).Below (x'.2.levelAt ⟨t, ht'⟩) := by
  obtain ⟨x, -, hresult, hlevel⟩ := h.pass_of_result hit
  obtain ⟨x', -, hresult', hlevel'⟩ := h'.pass_of_result hit'
  refine ⟨x, x', hresult, hresult', ?_⟩
  have hbelow := Cascade.levels_below (rounds_below h h' hn heases ht ht')
    (demandAt_le h h' heases ht ht') (le_refl (0 : ℚ))
  obtain ⟨hk, hget⟩ := List.getElem?_eq_some_iff.mp (hlevel ⟨t, ht⟩)
  obtain ⟨hk', hget'⟩ := List.getElem?_eq_some_iff.mp (hlevel' ⟨t, ht'⟩)
  rw [← hget, ← hget']
  exact hbelow.get hk hk'

end TwoRuns

/-! ## The results -/

/-- The second result leaves nobody worse off. -/
structure NoWorse (C C' : Mat ℚ) (consumers : Nat) (res res' : KeySimResult ℚ) : Prop where
  residual : ∀ (k : Nat) (it it'), res.iterations[k]? = some it →
    res'.iterations[k]? = some it' → ∀ t < C.cols, ∀ j < consumers,
      it'.consumerAt (·.residualVolume) j t ≤ it.consumerAt (·.residualVolume) j t
  surplus : ∀ (k : Nat) (it it'), res.iterations[k]? = some it →
    res'.iterations[k]? = some it' → ∀ t < C.cols,
      seriesAt it.surplus t ≤ seriesAt it'.surplus t
  consumed : ∀ k, ∀ t < C.cols, ∀ j < consumers, C'.at j t = C.at j t →
    consumedWithin res k j t ≤ consumedWithin res' k j t
  residualTotal : res'.residualVolumeTotal ≤ res.residualVolumeTotal
  surplusTotal : res.surplusTotal ≤ res'.surplusTotal
  selfSufficiency : (∀ j t, C'.at j t = C.at j t) →
    res.selfSufficiencyRateTotal ≤ res'.selfSufficiencyRateTotal

section Totals

variable {key : SimulationKeyInput ℚ} {C VA C' VA' : Mat ℚ} {consumerNames : List String}
  (h : Accepted key C VA consumerNames) (h' : Accepted key C' VA' consumerNames)
  (hn : NonnegRun key C VA consumerNames) (heases : Eases key consumerNames C VA C' VA')
  {first first' : IterationSimResult ℚ} {rest rest' : List (IterationSimResult ℚ)}
  (hres : h.results = first :: rest) (hres' : h'.results = first' :: rest')

include hn heases hres hres'

theorem residualTotal_le :
    (keyResult key first' rest').residualVolumeTotal ≤
      (keyResult key first rest).residualVolumeTotal := by
  have hcols := heases.timesteps
  obtain ⟨rows', cols', get'⟩ := C'
  subst hcols
  rw [h.residualTotal_eq hres, h'.residualTotal_eq hres']
  refine Finset.sum_le_sum fun t _ => Finset.sum_le_sum fun j _ => ?_
  exact Cascade.finalUnmet_below (rounds_below h h' hn heases t.isLt t.isLt)
    (demandAt_le h h' heases t.isLt t.isLt) le_rfl j

theorem surplusTotal_le :
    (keyResult key first rest).surplusTotal ≤ (keyResult key first' rest').surplusTotal := by
  have hcols := heases.timesteps
  obtain ⟨rows', cols', get'⟩ := C'
  subst hcols
  rw [surplusTotal_eq h hres, surplusTotal_eq h' hres']
  refine Finset.sum_le_sum fun t _ => ?_
  exact Cascade.leftover_below (rounds_below h h' hn heases t.isLt t.isLt)
    (demandAt_le h h' heases t.isLt t.isLt) le_rfl

/-- Of the same consumption, no less is self-consumed. -/
theorem selfSufficiency_le (hsame : ∀ j t, C'.at j t = C.at j t) :
    (keyResult key first rest).selfSufficiencyRateTotal ≤
      (keyResult key first' rest').selfSufficiencyRateTotal := by
  have hresidual := residualTotal_le h h' hn heases hres hres'
  have hcols := heases.timesteps
  obtain ⟨rows', cols', get'⟩ := C'
  subst hcols
  have hdemand : ∀ (t : Fin C.cols) (j : Fin consumerNames.length),
      h'.demandAt t j = h.demandAt t j := by
    intro t j
    have hat := hsame j t
    rwa [h.demand_eq j.isLt t.isLt, h'.demand_eq j.isLt t.isLt] at hat
  have htotal : (keyResult key first' rest').consumptionTotal =
      (keyResult key first rest).consumptionTotal := by
    rw [h.consumptionTotal_eq hres, h'.consumptionTotal_eq hres']
    exact Finset.sum_congr rfl fun t _ => Finset.sum_congr rfl fun j _ => hdemand t j
  have hnonneg : 0 ≤ (keyResult key first rest).consumptionTotal := by
    rw [h.consumptionTotal_eq hres]
    exact Finset.sum_nonneg fun t _ => Finset.sum_nonneg fun j _ => hn.demand h j t
  have hconsumed : (keyResult key first rest).energyAllocatedConsumedTotal ≤
      (keyResult key first' rest').energyAllocatedConsumedTotal := by
    -- what is not left unmet is self-consumed
    rw [h.residualTotal_eq hres, h'.residualTotal_eq hres'] at hresidual
    rw [h.consumptionTotal_eq hres, h'.consumptionTotal_eq hres'] at htotal
    have hbalance := Finset.sum_congr rfl fun t (_ : t ∈ Finset.univ) =>
      Cascade.totalServed_add_finalUnmet (h.rounds t) (h.demandAt t) 0
    have hbalance' := Finset.sum_congr rfl fun t (_ : t ∈ Finset.univ) =>
      Cascade.totalServed_add_finalUnmet (h'.rounds t) (h'.demandAt t) 0
    rw [Finset.sum_add_distrib] at hbalance hbalance'
    rw [h.consumedTotal_eq hres, h'.consumedTotal_eq hres']
    linarith
  show (if (keyResult key first rest).consumptionTotal ≠ 0 then
      (keyResult key first rest).energyAllocatedConsumedTotal /
        (keyResult key first rest).consumptionTotal else 0) ≤
    if (keyResult key first' rest').consumptionTotal ≠ 0 then
      (keyResult key first' rest').energyAllocatedConsumedTotal /
        (keyResult key first' rest').consumptionTotal else 0
  rw [htotal]
  by_cases hnone : (keyResult key first rest).consumptionTotal = 0
  · rw [if_neg (not_not.mpr hnone), if_neg (not_not.mpr hnone)]
  · rw [if_pos hnone, if_pos hnone]
    exact div_le_div_of_nonneg_right hconsumed hnonneg

end Totals

theorem no_worse {key : SimulationKeyInput ℚ} {C VA C' VA' : Mat ℚ} {consumerNames : List String}
    {res res' : KeySimResult ℚ} (hrun : runSimulation key C VA consumerNames = .ok res)
    (hrun' : runSimulation key C' VA' consumerNames = .ok res')
    (hn : NonnegRun key C VA consumerNames) (heases : Eases key consumerNames C VA C' VA') :
    NoWorse C C' consumerNames.length res res' := by
  obtain ⟨h, first, rest, hres, rfl⟩ := runSimulation_ok_iff.mp hrun
  obtain ⟨h', first', rest', hres', rfl⟩ := runSimulation_ok_iff.mp hrun'
  have hlt : ∀ t < C.cols, t < C'.cols := fun t ht => heases.timesteps ▸ ht
  have hits : (keyResult key first rest).iterations = h.results := hres.symm
  have hits' : (keyResult key first' rest').iterations = h'.results := hres'.symm
  refine
    { residual := fun k it it' hit hit' t ht j hj => ?_
      surplus := fun k it it' hit hit' t ht => ?_
      consumed := fun k t ht j hj hsame => ?_
      residualTotal := residualTotal_le h h' hn heases hres hres'
      surplusTotal := surplusTotal_le h h' hn heases hres hres'
      selfSufficiency := selfSufficiency_le h h' hn heases hres hres' }
  · rw [hits] at hit
    rw [hits'] at hit'
    obtain ⟨x, x', rfl, rfl, hbelow⟩ := levels_of_results h h' hn heases ht (hlt t ht) hit hit'
    have hunmet := hbelow.unmet_le ⟨j, hj⟩
    rw [← x.2.residual_eq ⟨j, hj⟩ ⟨t, ht⟩, ← x'.2.residual_eq ⟨j, hj⟩ ⟨t, hlt t ht⟩] at hunmet
    rw [consumerAt_iterationResult x.1 x.2 (fun _ _ _ => rfl) hj ht,
      consumerAt_iterationResult x'.1 x'.2 (fun _ _ _ => rfl) hj (hlt t ht)]
    exact hunmet
  · rw [hits] at hit
    rw [hits'] at hit'
    obtain ⟨x, x', rfl, rfl, hbelow⟩ := levels_of_results h h' hn heases ht (hlt t ht) hit hit'
    have hexcess := hbelow.excess_sum_le
    rw [← x.2.surplusSeries_eq ⟨t, ht⟩, ← x'.2.surplusSeries_eq ⟨t, hlt t ht⟩] at hexcess
    show seriesAt (List.ofFn x.2.surplusSeries) t ≤ seriesAt (List.ofFn x'.2.surplusSeries) t
    rw [seriesAt_ofFn_lt _ ht, seriesAt_ofFn_lt _ (hlt t ht)]
    exact hexcess
  · have hserved := consumedWithin_eq h hres k ⟨j, hj⟩ ⟨t, ht⟩
    have hserved' := consumedWithin_eq h' hres' k ⟨j, hj⟩ ⟨t, hlt t ht⟩
    simp only at hserved hserved'
    rw [hserved, hserved']
    rw [h.demand_eq hj ht, h'.demand_eq hj (hlt t ht)] at hsame
    exact Cascade.taken_below (List.forall₂_take k (rounds_below h h' hn heases ht (hlt t ht)))
      (demandAt_le h h' heases ht (hlt t ht)) le_rfl hsame

/-- Half of a supply by consumption, then half by the second consumer's fraction. -/
def halves : SimulationKeyInput ℚ := keyOfShares [1 / 2, 1 / 2] [⟨"A", -1⟩, ⟨"B", 1 / 4⟩]

def demands : Mat ℚ := ⟨2, 1, fun j _ => if j.val = 0 then 200 else 300⟩

/-- Twice the production. -/
theorem no_worse_twice :
    ∃ res res', runSimulation halves demands ⟨1, 1, fun _ _ => 400⟩ ["A", "B"] = .ok res ∧
      runSimulation halves demands ⟨1, 1, fun _ _ => 800⟩ ["A", "B"] = .ok res' ∧
      NoWorse demands demands 2 res res' := by
  have haccepted : ∀ production : ℚ,
      Accepted halves demands ⟨1, 1, fun _ _ => production⟩ ["A", "B"] := fun _ =>
    ⟨by decide, by decide, rfl, ⟨le_rfl, rfl⟩, by decide⟩
  obtain ⟨res, hres⟩ := (haccepted 400).run_ok
  obtain ⟨res', hres'⟩ := (haccepted 800).run_ok
  have hdemands : ∀ j t, (0 : ℚ) ≤ demands.at j t := Mat.at_nonneg fun j _ => by
    show (0 : ℚ) ≤ if j.val = 0 then 200 else 300
    split <;> norm_num
  have hsupply : ∀ t, (0 : ℚ) ≤ Mat.at ⟨1, 1, fun _ _ => 400⟩ 0 t :=
    Mat.at_nonneg (fun _ _ => by norm_num) 0
  have hmore : ∀ t, Mat.at (F := ℚ) ⟨1, 1, fun _ _ => 400⟩ 0 t ≤
      Mat.at ⟨1, 1, fun _ _ => 800⟩ 0 t := by
    intro t
    unfold Mat.at
    split_ifs <;> norm_num
  exact ⟨res, res', hres, hres', no_worse hres hres'
    ⟨hdemands, hsupply, by decide +kernel, by decide +kernel⟩
    ⟨rfl, fun _ _ => le_rfl, hmore, .inl fun _ _ => rfl⟩⟩

end SimulationKey.Theorems.MoreProduction
