import SimulationKey.Simulation.Refinement

/-!
# A run over some of its timesteps

What a pass computes at a timestep it computes from the data of that timestep
alone: in any arithmetic that adds up the consumers of the two runs in one order, the
passes of a run over selected timesteps are those of the whole run, read at these
timesteps (`passes_sample`).
-/

namespace SimulationKey

open Kit PyFloat

variable {F : Type} [PyFloat F]

/-- The columns of an array at some timesteps, in their order. -/
def Mat.atTimesteps (m : Mat F) (ts : List Nat) : Mat F :=
  { rows := m.rows
    cols := ts.length
    get := fun i t => m.at i (ts.get t) }

/-- A series at some timesteps. -/
def sampled (ts : List Nat) (s : List F) : List F := ts.map (seriesAt s)

theorem sampled_ofFn {T : Nat} (ts : List Nat) (sel : Fin ts.length → Fin T)
    (hsel : ∀ t, (sel t : Nat) = ts.get t) (f : Fin T → F) :
    List.ofFn (fun t => f (sel t)) = sampled ts (List.ofFn f) := by
  refine List.ext_getElem (by simp [sampled]) fun t ht ht' => ?_
  have hlt : t < ts.length := by simpa using ht
  have hat := hsel ⟨t, hlt⟩
  simp only [List.getElem_ofFn, sampled, List.getElem_map]
  rw [show ts[t] = (sel ⟨t, hlt⟩ : Nat) from hat.symm, seriesAt_ofFn]

/-- The columns of arrays of `n` rows are added up in one order, whether the array has
`T` of them or `T'`. NumPy's order is one for all arrays of two columns or more, and
another for a single column. -/
def SameOrder (F : Type) [PyFloat F] (n T T' : Nat) : Prop :=
  ∀ column : List F, sumBy (.column n T') column = sumBy (.column n T) column

theorem sameOrder_rat (n T T' : Nat) : SameOrder ℚ n T T' := fun _ => rfl

section Passes

variable {n T T' : Nat} (hsum : SameOrder F n T T') (sel : Fin T' → Fin T)

/-- A pass read at some timesteps. -/
def Pass.sample (p : Pass F n T) : Pass F n T' :=
  { va := fun t => p.va (sel t)
    consumption := fun j t => p.consumption j (sel t)
    allocated := fun j t => p.allocated j (sel t) }

def Carry.sample (c : Carry F n T) : Carry F n T' :=
  { residual := fun j t => c.residual j (sel t)
    surplus := fun t => c.surplus (sel t) }

section Series

include hsum

theorem axisSum_sample (f : Fin n → F) :
    axisSum (.column n T') f = axisSum (.column n T) f :=
  hsum (List.ofFn f)

variable (p : Pass F n T)

theorem consumptionSeries_sample (t : Fin T') :
    (p.sample sel).consumptionSeries t = p.consumptionSeries (sel t) :=
  axisSum_sample hsum fun j => p.consumption j (sel t)

theorem consumedSeries_sample (t : Fin T') :
    (p.sample sel).consumedSeries t = p.consumedSeries (sel t) :=
  axisSum_sample hsum fun j => p.consumed j (sel t)

theorem residualSeries_sample (t : Fin T') :
    (p.sample sel).residualSeries t = p.residualSeries (sel t) :=
  axisSum_sample hsum fun j => p.residual j (sel t)

theorem surplusSeries_sample (t : Fin T') :
    (p.sample sel).surplusSeries t = p.surplusSeries (sel t) :=
  axisSum_sample hsum fun j => p.surplus j (sel t)

theorem carry_sample : (p.sample sel).carry = p.carry.sample sel := by
  show Carry.mk (p.sample sel).residual (p.sample sel).surplusSeries = _
  rw [funext (surplusSeries_sample hsum sel p)]
  rfl

theorem prorataWeights_sample (C : Fin n → Fin T → F) :
    prorataWeights (fun j t => C j (sel t)) = fun j t => prorataWeights C j (sel t) := by
  funext j t
  unfold prorataWeights
  rw [axisSum_sample hsum]

end Series

theorem allocationPass_sample (production : Fin T → F) (C weights : Fin n → Fin T → F) (share : F)
    (pct : Fin n → F) (prev : Option (Carry F n T)) :
    allocationPass (fun t => production (sel t)) (fun j t => C j (sel t))
        (fun j t => weights j (sel t)) share pct (prev.map (Carry.sample sel)) =
      (allocationPass production C weights share pct prev).sample sel := by
  cases prev with
  | none => rfl
  | some prev => rfl

/-- The passes over some timesteps are the passes over all of them, read there. -/
theorem passes_sample {consumerNames : List String}
    (hsum : SameOrder F consumerNames.length T T') (production : Fin T → F)
    (C weights : Fin consumerNames.length → Fin T → F)
    (its : List (SimulationIterationInput F)) (prev : Option (Carry F consumerNames.length T)) :
    passes (fun t => production (sel t)) (fun j t => C j (sel t)) (fun j t => weights j (sel t))
        its (prev.map (Carry.sample sel)) =
      (passes production C weights its prev).map fun x => (x.1, x.2.sample sel) := by
  induction its generalizing prev with
  | nil => rfl
  | cons it rest ih =>
      have hrest := ih (some (allocationPass production C weights it.energyAllocatedPercentage
        (pcts it consumerNames) prev).carry)
      rw [Option.map_some, ← carry_sample hsum] at hrest
      rw [passes, passes, List.map_cons, allocationPass_sample, hrest]

end Passes

/-! ## The run -/

section Run

variable {key : SimulationKeyInput F} {C VA : Mat F} {consumerNames : List String}

/-- What is accepted over all timesteps is accepted over some. -/
theorem Accepted.atTimesteps (h : Accepted key C VA consumerNames) (ts : List Nat) :
    Accepted key (C.atTimesteps ts) (VA.atTimesteps ts) consumerNames :=
  ⟨h.iterations, h.consumers, h.rows, ⟨h.production.1, rfl⟩, h.listed⟩

/-- The passes of the run over some timesteps. -/
theorem Accepted.runPasses_atTimesteps (h : Accepted key C VA consumerNames) {ts : List Nat}
    (hts : ∀ t ∈ ts, t < C.cols) (hsum : SameOrder F consumerNames.length C.cols ts.length) :
    (h.atTimesteps ts).runPasses = h.runPasses.map fun x =>
      (x.1, x.2.sample fun t : Fin ts.length => ⟨ts.get t, hts _ (List.get_mem ts t)⟩) := by
  have hdemand : (h.atTimesteps ts).demand = fun j t =>
      h.demand j ⟨ts.get t, hts _ (List.get_mem ts t)⟩ := by
    funext j t
    have hat := h.demand_eq j.isLt (hts _ (List.get_mem ts t))
    exact hat
  have hsupply : (h.atTimesteps ts).supply = fun t =>
      h.supply ⟨ts.get t, hts _ (List.get_mem ts t)⟩ := by
    funext t
    have hat := h.supply_eq (hts _ (List.get_mem ts t))
    exact hat
  have hpasses := passes_sample (fun t : Fin ts.length => ⟨ts.get t, hts _ (List.get_mem ts t)⟩)
    hsum h.supply h.demand (prorataWeights h.demand) key.iterations none
  rw [← prorataWeights_sample hsum] at hpasses
  unfold Accepted.runPasses
  rw [hdemand, hsupply]
  exact hpasses

/-- The results of the run over some timesteps. -/
theorem Accepted.results_atTimesteps (h : Accepted key C VA consumerNames) {ts : List Nat}
    (hts : ∀ t ∈ ts, t < C.cols) (hsum : SameOrder F consumerNames.length C.cols ts.length) :
    (h.atTimesteps ts).results = h.runPasses.map fun x =>
      iterationResult consumerNames x.1
        (x.2.sample fun t : Fin ts.length => ⟨ts.get t, hts _ (List.get_mem ts t)⟩) := by
  have hpasses := congrArg (List.map fun x => iterationResult consumerNames x.1 x.2)
    (h.runPasses_atTimesteps hts hsum)
  exact hpasses.trans List.map_map

end Run

end SimulationKey
