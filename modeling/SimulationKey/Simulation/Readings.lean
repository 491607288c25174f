import SimulationKey.Simulation.Refinement

/-!
# Results as rational numbers

What a result promises of the signs and the order of its numbers, whatever they are,
as a promise about the rationals they are read as: themselves in exact arithmetic,
their values in a rounded one.
-/

namespace SimulationKey

open Kit PyFloat

variable {F : Type}

/-- What holds of every entry, and of 0, holds at every index. -/
theorem Mat.at_of_get [Zero F] {P : F → Prop} (hzero : P 0) {m : Mat F}
    (hget : ∀ i t, P (m.get i t)) (i t : Nat) : P (m.at i t) := by
  unfold Mat.at
  split_ifs
  · exact hget _ _
  · exact hzero

variable (read : F → ℚ)

def SeriesNonneg (s : List F) : Prop := ∀ x ∈ s, 0 ≤ read x

/-- No series of the consumer has a negative value. -/
structure ConsumerNonneg (c : ConsumerSimResult F) : Prop where
  consumption : SeriesNonneg read c.consumption
  energyAllocated : SeriesNonneg read c.energyAllocated
  energyAllocatedConsumed : SeriesNonneg read c.energyAllocatedConsumed
  residualVolume : SeriesNonneg read c.residualVolume
  surplus : SeriesNonneg read c.surplus

/-- No series of the iteration itself has a negative value. -/
structure IterationNonneg (it : IterationSimResult F) : Prop where
  consumption : SeriesNonneg read it.consumption
  energyAllocated : SeriesNonneg read it.energyAllocated
  energyAllocatedConsumed : SeriesNonneg read it.energyAllocatedConsumed
  residualVolume : SeriesNonneg read it.residualVolume
  surplus : SeriesNonneg read it.surplus
  sharingRate : SeriesNonneg read it.sharingRate
  selfSufficiencyRate : SeriesNonneg read it.selfSufficiencyRate

/-- Consumer by consumer, the residual volume does not grow. -/
def ResidualShrinks [Zero F] (prev next : IterationSimResult F) : Prop :=
  List.Forall₂ (fun c c' => c.name = c'.name ∧
    ∀ t, read (seriesAt c'.residualVolume t) ≤ read (seriesAt c.residualVolume t))
    prev.consumers next.consumers

variable {read}

theorem seriesNonneg_ofFn {T : Nat} {f : Fin T → F} (hf : ∀ t, 0 ≤ read (f t)) :
    SeriesNonneg read (List.ofFn f) := by
  intro x hx
  obtain ⟨t, rfl⟩ := (List.mem_ofFn' _ _).mp hx
  exact hf t

/-- A pass that leaves no more than another left. -/
theorem residual_shrinks [PyFloat F] {T : Nat} {consumerNames : List String}
    (it it' : SimulationIterationInput F) {p next : Pass F consumerNames.length T}
    (hle : ∀ j t, read (next.residual j t) ≤ read (p.residual j t)) :
    ResidualShrinks read (iterationResult consumerNames it p)
      (iterationResult consumerNames it' next) := by
  simp only [ResidualShrinks, iterationResult, List.ofFn_eq_map]
  rw [List.forall₂_map_left_iff, List.forall₂_map_right_iff, List.forall₂_same]
  refine fun j _ => ⟨rfl, fun t => ?_⟩
  show read (seriesAt (List.ofFn (next.residual j)) t) ≤
    read (seriesAt (List.ofFn (p.residual j)) t)
  by_cases ht : t < T
  · rw [seriesAt_ofFn_lt _ ht, seriesAt_ofFn_lt _ ht]
    exact hle j ⟨t, ht⟩
  · rw [seriesAt_ofFn_ge _ (not_lt.mp ht), seriesAt_ofFn_ge _ (not_lt.mp ht)]

end SimulationKey
