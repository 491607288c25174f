import SimulationKey.Simulation.Timesteps

/-!
# Periods

* `timesteps_independent` — in any arithmetic that adds up the consumers of the two
  runs in one order, the energy series of a run over selected timesteps are those of
  the whole run at these timesteps, in every iteration and for every consumer: no
  timestep influences another;
* `periods_add` — over exact arithmetic, the totals of a run are the sums of those
  of its two parts, wherever the period is cut.
-/

namespace SimulationKey.Theorems.Periods

open Kit PyFloat

variable {F : Type} [PyFloat F]

/-! ## Some of the timesteps -/

/-- A consumer's series at some timesteps. -/
structure SampledConsumer (ts : List Nat) (c c' : ConsumerSimResult F) : Prop where
  name : c'.name = c.name
  percentage : c'.energyAllocatedPercentage = c.energyAllocatedPercentage
  consumption : c'.consumption = sampled ts c.consumption
  energyAllocated : c'.energyAllocated = sampled ts c.energyAllocated
  energyAllocatedConsumed : c'.energyAllocatedConsumed = sampled ts c.energyAllocatedConsumed
  residualVolume : c'.residualVolume = sampled ts c.residualVolume
  surplus : c'.surplus = sampled ts c.surplus

/-- An iteration's energy series at some timesteps. -/
structure SampledIteration (ts : List Nat) (it it' : IterationSimResult F) : Prop where
  number : it'.number = it.number
  percentage : it'.energyAllocatedPercentage = it.energyAllocatedPercentage
  consumption : it'.consumption = sampled ts it.consumption
  energyAllocated : it'.energyAllocated = sampled ts it.energyAllocated
  energyAllocatedConsumed : it'.energyAllocatedConsumed = sampled ts it.energyAllocatedConsumed
  residualVolume : it'.residualVolume = sampled ts it.residualVolume
  surplus : it'.surplus = sampled ts it.surplus
  consumers : List.Forall₂ (SampledConsumer ts) it.consumers it'.consumers

section Sample

variable {T : Nat} {consumerNames : List String} {ts : List Nat} (sel : Fin ts.length → Fin T)
  (hsel : ∀ t, (sel t : Nat) = ts.get t)

include hsel

theorem sampledConsumer_result (p : Pass F consumerNames.length T) (name : String) (pct : F)
    (j : Fin consumerNames.length) :
    SampledConsumer ts (consumerResult p name pct j) (consumerResult (p.sample sel) name pct j) :=
  { name := rfl
    percentage := rfl
    consumption := sampled_ofFn ts sel hsel (p.consumption j)
    energyAllocated := sampled_ofFn ts sel hsel (p.allocated j)
    energyAllocatedConsumed := sampled_ofFn ts sel hsel (p.consumed j)
    residualVolume := sampled_ofFn ts sel hsel (p.residual j)
    surplus := sampled_ofFn ts sel hsel (p.surplus j) }

theorem sampledIteration_result (hsum : SameOrder F consumerNames.length T ts.length)
    (it : SimulationIterationInput F) (p : Pass F consumerNames.length T) :
    SampledIteration ts (iterationResult consumerNames it p)
      (iterationResult consumerNames it (p.sample sel)) :=
  { number := rfl
    percentage := rfl
    consumption := (congrArg List.ofFn (funext (consumptionSeries_sample hsum sel p))).trans
      (sampled_ofFn ts sel hsel p.consumptionSeries)
    energyAllocated := sampled_ofFn ts sel hsel p.va
    energyAllocatedConsumed :=
      (congrArg List.ofFn (funext (consumedSeries_sample hsum sel p))).trans
        (sampled_ofFn ts sel hsel p.consumedSeries)
    residualVolume := (congrArg List.ofFn (funext (residualSeries_sample hsum sel p))).trans
      (sampled_ofFn ts sel hsel p.residualSeries)
    surplus := (congrArg List.ofFn (funext (surplusSeries_sample hsum sel p))).trans
      (sampled_ofFn ts sel hsel p.surplusSeries)
    consumers := by
      refine List.forall₂_iff_get.mpr ⟨by simp [iterationResult], fun j hj hj' => ?_⟩
      simp only [iterationResult, List.get_ofFn]
      exact sampledConsumer_result sel hsel p _ _ _ }

end Sample

/-- The energy series of a run over some of its timesteps, in any order, are those of
the whole run at these timesteps, where both add up their consumers in one order. -/
theorem timesteps_independent {key : SimulationKeyInput F} {C VA : Mat F}
    {consumerNames : List String} {res : KeySimResult F}
    (hrun : runSimulation key C VA consumerNames = .ok res) {ts : List Nat}
    (hts : ∀ t ∈ ts, t < C.cols) (hsum : SameOrder F consumerNames.length C.cols ts.length) :
    ∃ res', runSimulation key (C.atTimesteps ts) (VA.atTimesteps ts) consumerNames = .ok res' ∧
      List.Forall₂ (SampledIteration ts) res.iterations res'.iterations := by
  obtain ⟨h, first, rest, hres, rfl⟩ := runSimulation_ok_iff.mp hrun
  obtain ⟨res', hrun'⟩ := (h.atTimesteps ts).run_ok
  obtain ⟨h', first', rest', hres', rfl⟩ := runSimulation_ok_iff.mp hrun'
  refine ⟨_, hrun', ?_⟩
  show List.Forall₂ (SampledIteration ts) (first :: rest) (first' :: rest')
  rw [← hres, ← hres', h.results_atTimesteps hts hsum, Accepted.results, List.forall₂_map_left_iff,
    List.forall₂_map_right_iff, List.forall₂_same]
  intro x _
  exact sampledIteration_result _ (fun _ => rfl) hsum x.1 x.2

/-- Two consumers over two timesteps. -/
def smallConsumption : Mat ℚ := ⟨2, 2, fun j t => 100 * (j + 1) + 10 * t⟩

def smallProduction : Mat ℚ := ⟨1, 2, fun _ t => 200 + 300 * t⟩

theorem accepted_small :
    Accepted (keyOfShares [1 / 2, 1 / 2] [⟨"A", -1⟩, ⟨"B", 1 / 4⟩]) smallConsumption
      smallProduction ["A", "B"] :=
  ⟨by decide, by decide, rfl, ⟨le_rfl, rfl⟩, by decide⟩

/-- The second timestep twice, then the first. -/
theorem timesteps_independent_small :
    ∃ res res', runSimulation (keyOfShares [1 / 2, 1 / 2] [⟨"A", -1⟩, ⟨"B", 1 / 4⟩])
        smallConsumption smallProduction ["A", "B"] = .ok res ∧
      runSimulation (keyOfShares [1 / 2, 1 / 2] [⟨"A", -1⟩, ⟨"B", 1 / 4⟩])
        (smallConsumption.atTimesteps [1, 1, 0]) (smallProduction.atTimesteps [1, 1, 0])
        ["A", "B"] = .ok res' ∧
      List.Forall₂ (SampledIteration [1, 1, 0]) res.iterations res'.iterations := by
  have hts : ∀ t ∈ [1, 1, 0], t < smallConsumption.cols := by decide
  obtain ⟨res, hrun⟩ := accepted_small.run_ok
  obtain ⟨res', hrun', hsampled⟩ := timesteps_independent hrun hts (sameOrder_rat _ _ _)
  exact ⟨res, res', hrun, hrun', hsampled⟩

/-! ## Two parts of a period -/

/-- An iteration's totals are the sums of those of two parts. -/
structure TotalsAdd (it it₁ it₂ : IterationSimResult ℚ) : Prop where
  consumption : it.consumptionTotal = it₁.consumptionTotal + it₂.consumptionTotal
  energyAllocated : it.energyAllocatedTotal = it₁.energyAllocatedTotal + it₂.energyAllocatedTotal
  energyAllocatedConsumed : it.energyAllocatedConsumedTotal =
    it₁.energyAllocatedConsumedTotal + it₂.energyAllocatedConsumedTotal
  residualVolume : it.residualVolumeTotal = it₁.residualVolumeTotal + it₂.residualVolumeTotal
  surplus : it.surplusTotal = it₁.surplusTotal + it₂.surplusTotal

/-- The key's totals are the sums of those of two parts. -/
structure KeyTotalsAdd (res res₁ res₂ : KeySimResult ℚ) : Prop where
  consumption : res.consumptionTotal = res₁.consumptionTotal + res₂.consumptionTotal
  energyAllocated : res.energyAllocatedTotal =
    res₁.energyAllocatedTotal + res₂.energyAllocatedTotal
  energyAllocatedConsumed : res.energyAllocatedConsumedTotal =
    res₁.energyAllocatedConsumedTotal + res₂.energyAllocatedConsumedTotal
  residualVolume : res.residualVolumeTotal = res₁.residualVolumeTotal + res₂.residualVolumeTotal
  surplus : res.surplusTotal = res₁.surplusTotal + res₂.surplusTotal

/-- The timesteps before `k`. -/
abbrev before (k : Nat) : List Nat := List.range k

/-- The timesteps from `k` on, of `T`. -/
abbrev onward (k T : Nat) : List Nat := List.range' k (T - k)

theorem lt_of_mem_before {k T : Nat} (hk : k ≤ T) : ∀ t ∈ before k, t < T := by
  intro t ht
  have hlt := List.mem_range.mp ht
  omega

theorem lt_of_mem_onward {k T : Nat} : ∀ t ∈ onward k T, t < T := by
  intro t ht
  have hbounds := List.mem_range'_1.mp ht
  omega

theorem before_append_onward {k T : Nat} (hk : k ≤ T) : before k ++ onward k T = List.range T := by
  have happend : List.range' 0 k ++ List.range' (0 + k) (T - k) = List.range' 0 (k + (T - k)) :=
    List.range'_append_1
  rw [Nat.zero_add, Nat.add_sub_cancel' hk] at happend
  rw [before, List.range_eq_range', List.range_eq_range', happend]

theorem sampled_range {T : Nat} (f : Fin T → ℚ) :
    sampled (List.range T) (List.ofFn f) = List.ofFn f := by
  refine List.ext_getElem (by simp [sampled]) fun t ht ht' => ?_
  have hlt : t < T := by simpa using ht'
  simp [sampled, seriesAt_ofFn_lt f hlt]

section Cut

variable {T k : Nat} (hk : k ≤ T)

/-- The first timesteps of `T`, and the others. -/
def early (t : Fin (before k).length) : Fin T :=
  ⟨(before k).get t, lt_of_mem_before hk _ (List.get_mem _ t)⟩

def late (k : Nat) (t : Fin (onward k T).length) : Fin T :=
  ⟨(onward k T).get t, lt_of_mem_onward _ (List.get_mem _ t)⟩

include hk in
/-- A total is the sum of the totals of the two parts. -/
theorem axisSum_cut (f : Fin T → ℚ) :
    axisSum .series f =
      axisSum .series (fun t => f (early hk t)) + axisSum .series (fun t => f (late k t)) := by
  simp only [axisSum, sumBy_rat]
  rw [sampled_ofFn (before k) (early hk) (fun _ => rfl) f,
    sampled_ofFn (onward k T) (late k) (fun _ => rfl) f, ← List.sum_append]
  have hall := sampled_range f
  rw [← before_append_onward hk, sampled, List.map_append] at hall
  exact congrArg List.sum hall.symm

theorem totalsAdd_result {consumerNames : List String} (it : SimulationIterationInput ℚ)
    (p : Pass ℚ consumerNames.length T) :
    TotalsAdd (iterationResult consumerNames it p)
      (iterationResult consumerNames it (p.sample (early hk)))
      (iterationResult consumerNames it (p.sample (late k))) :=
  { consumption := axisSum_cut hk p.consumptionSeries
    energyAllocated := axisSum_cut hk p.va
    energyAllocatedConsumed := axisSum_cut hk p.consumedSeries
    residualVolume := axisSum_cut hk p.residualSeries
    surplus := axisSum_cut hk p.surplusSeries }

end Cut

/-! ### The roll-up -/

section RollUp

variable {α : Type} {whole part₁ part₂ : α → IterationSimResult ℚ}
  (hadd : ∀ y, TotalsAdd (whole y) (part₁ y) (part₂ y)) (key : SimulationKeyInput ℚ)

theorem getLast_mapped (f : α → IterationSimResult ℚ) (x : α) (xs : List α) :
    (f x :: xs.map f).getLast (List.cons_ne_nil _ _) =
      f ((x :: xs).getLast (List.cons_ne_nil x xs)) := by
  have hmap : (x :: xs).map f ≠ [] := List.cons_ne_nil _ _
  exact List.getLast_map hmap

include hadd in
theorem keyTotalsAdd_of_totalsAdd (x : α) (xs : List α) :
    KeyTotalsAdd (keyResult key (whole x) (xs.map whole))
      (keyResult key (part₁ x) (xs.map part₁)) (keyResult key (part₂ x) (xs.map part₂)) := by
  have hlast := hadd ((x :: xs).getLast (List.cons_ne_nil x xs))
  refine ⟨(hadd x).consumption, (hadd x).energyAllocated, ?_, ?_, ?_⟩
  · have hsum : ∀ f : α → IterationSimResult ℚ,
        ((f x :: xs.map f).map (·.energyAllocatedConsumedTotal)).sum =
          ((x :: xs).map fun y => (f y).energyAllocatedConsumedTotal).sum := fun f => by
      rw [← List.map_cons, List.map_map]
      rfl
    simp only [keyResult, sumBy_rat, hsum]
    rw [← List.sum_map_add]
    exact congrArg List.sum (List.map_congr_left fun y _ => (hadd y).energyAllocatedConsumed)
  · simp only [keyResult, getLast_mapped]
    exact hlast.residualVolume
  · simp only [keyResult, getLast_mapped]
    exact hlast.surplus

include hadd in
theorem iterationTotalsAdd {x : α} {xs : List α} {i : Nat} {it : IterationSimResult ℚ}
    (hit : (keyResult key (whole x) (xs.map whole)).iterations[i]? = some it) :
    ∃ it₁ it₂, (keyResult key (part₁ x) (xs.map part₁)).iterations[i]? = some it₁ ∧
      (keyResult key (part₂ x) (xs.map part₂)).iterations[i]? = some it₂ ∧
      TotalsAdd it it₁ it₂ := by
  have hat : ∀ f : α → IterationSimResult ℚ,
      (keyResult key (f x) (xs.map f)).iterations[i]? = (x :: xs)[i]?.map f := fun f => by
    rw [← List.getElem?_map]
    rfl
  rw [hat] at hit
  obtain ⟨y, hy, rfl⟩ := Option.map_eq_some_iff.mp hit
  exact ⟨part₁ y, part₂ y, by rw [hat, hy]; rfl, by rw [hat, hy]; rfl, hadd y⟩

end RollUp

/-- The totals of a run are the sums of those of its two parts, of every iteration
and of the key. -/
theorem periods_add {key : SimulationKeyInput ℚ} {C VA : Mat ℚ} {consumerNames : List String}
    {res : KeySimResult ℚ} (hrun : runSimulation key C VA consumerNames = .ok res) {k : Nat}
    (hk : k ≤ C.cols) :
    ∃ res₁ res₂,
      runSimulation key (C.atTimesteps (before k)) (VA.atTimesteps (before k)) consumerNames =
        .ok res₁ ∧
      runSimulation key (C.atTimesteps (onward k C.cols)) (VA.atTimesteps (onward k C.cols))
        consumerNames = .ok res₂ ∧
      KeyTotalsAdd res res₁ res₂ ∧
      ∀ (i : Nat) (it), res.iterations[i]? = some it → ∃ it₁ it₂, res₁.iterations[i]? = some it₁ ∧
        res₂.iterations[i]? = some it₂ ∧ TotalsAdd it it₁ it₂ := by
  obtain ⟨h, first, rest, hres, rfl⟩ := runSimulation_ok_iff.mp hrun
  have hres₁ := h.results_atTimesteps (lt_of_mem_before hk) (sameOrder_rat _ _ _)
  have hres₂ := h.results_atTimesteps (lt_of_mem_onward (k := k)) (sameOrder_rat _ _ _)
  rw [Accepted.results] at hres
  obtain ⟨x, xs, hpasses⟩ := List.exists_cons_of_ne_nil h.runPasses_ne_nil
  rw [hpasses, List.map_cons] at hres hres₁ hres₂
  obtain ⟨rfl, rfl⟩ := List.cons.inj hres
  have hadd := fun y : SimulationIterationInput ℚ × Pass ℚ consumerNames.length C.cols =>
    totalsAdd_result hk y.1 y.2
  refine ⟨_, _, runSimulation_ok_iff.mpr ⟨_, _, _, hres₁, rfl⟩,
    runSimulation_ok_iff.mpr ⟨_, _, _, hres₂, rfl⟩, keyTotalsAdd_of_totalsAdd hadd key x xs,
    fun i it hit => iterationTotalsAdd hadd key hit⟩

/-- The two timesteps, each on its own. -/
theorem periods_add_small :
    ∃ res res₁ res₂, runSimulation (keyOfShares [1 / 2, 1 / 2] [⟨"A", -1⟩, ⟨"B", 1 / 4⟩])
        smallConsumption smallProduction ["A", "B"] = .ok res ∧
      runSimulation (keyOfShares [1 / 2, 1 / 2] [⟨"A", -1⟩, ⟨"B", 1 / 4⟩])
        (smallConsumption.atTimesteps (before 1)) (smallProduction.atTimesteps (before 1))
        ["A", "B"] = .ok res₁ ∧
      runSimulation (keyOfShares [1 / 2, 1 / 2] [⟨"A", -1⟩, ⟨"B", 1 / 4⟩])
        (smallConsumption.atTimesteps (onward 1 2)) (smallProduction.atTimesteps (onward 1 2))
        ["A", "B"] = .ok res₂ ∧
      KeyTotalsAdd res res₁ res₂ := by
  obtain ⟨res, hrun⟩ := accepted_small.run_ok
  have hcut : 1 ≤ smallConsumption.cols := by decide
  obtain ⟨res₁, res₂, hrun₁, hrun₂, hadd, -⟩ := periods_add hrun hcut
  exact ⟨res, res₁, res₂, hrun, hrun₁, hrun₂, hadd⟩

end SimulationKey.Theorems.Periods
