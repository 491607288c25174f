import SimulationKey.Kit.Float

/-!
# The result of a run

`simulation/result.py`: per-timestep series as lists, totals and rates as
scalars, one record per consumer, per iteration and for the key.
-/

namespace SimulationKey

variable {F : Type}

structure ConsumerSimResult (F : Type) where
  name : String
  energyAllocatedPercentage : F
  consumption : List F
  consumptionTotal : F
  energyAllocated : List F
  energyAllocatedTotal : F
  energyAllocatedConsumed : List F
  energyAllocatedConsumedTotal : F
  residualVolume : List F
  residualVolumeTotal : F
  surplus : List F
  surplusTotal : F
  deriving DecidableEq, Repr

structure IterationSimResult (F : Type) where
  number : Int
  energyAllocatedPercentage : F
  consumption : List F
  consumptionTotal : F
  energyAllocated : List F
  energyAllocatedTotal : F
  energyAllocatedConsumed : List F
  energyAllocatedConsumedTotal : F
  residualVolume : List F
  residualVolumeTotal : F
  surplus : List F
  surplusTotal : F
  sharingRate : List F
  sharingRateTotal : F
  selfSufficiencyRate : List F
  selfSufficiencyRateTotal : F
  consumers : List (ConsumerSimResult F)
  deriving DecidableEq, Repr

structure KeySimResult (F : Type) where
  name : String
  description : String
  consumptionTotal : F
  energyAllocatedTotal : F
  energyAllocatedConsumedTotal : F
  residualVolumeTotal : F
  surplusTotal : F
  selfSufficiencyRateTotal : F
  sharingRateTotal : F
  iterations : List (IterationSimResult F)
  deriving DecidableEq, Repr

/-! ## Reading a series -/

/-- The value of a series at timestep `t` (0 past its end). -/
def seriesAt [Zero F] (s : List F) (t : Nat) : F := s.getD t 0

@[simp] theorem seriesAt_ofFn [Zero F] {T : Nat} (f : Fin T → F) (t : Fin T) :
    seriesAt (List.ofFn f) t = f t := by
  simp [seriesAt, List.getD_eq_getElem?_getD]

theorem seriesAt_ofFn_lt [Zero F] {T t : Nat} (f : Fin T → F) (ht : t < T) :
    seriesAt (List.ofFn f) t = f ⟨t, ht⟩ :=
  seriesAt_ofFn f ⟨t, ht⟩

theorem seriesAt_ofFn_ge [Zero F] {T t : Nat} (f : Fin T → F) (ht : T ≤ t) :
    seriesAt (List.ofFn f) t = 0 := by
  simp [seriesAt, List.getD_eq_getElem?_getD, ht]

/-- Two series combined timestep by timestep. -/
theorem zipWith_ofFn {T : Nat} {α β γ : Type} (op : α → β → γ) (f : Fin T → α) (g : Fin T → β) :
    List.zipWith op (List.ofFn f) (List.ofFn g) = List.ofFn fun t => op (f t) (g t) := by
  refine List.ext_getElem (by simp) fun t ht ht' => ?_
  simp

/-- The value at timestep `t` of one series of the `j`-th consumer. -/
def IterationSimResult.consumerAt [Zero F] (it : IterationSimResult F)
    (series : ConsumerSimResult F → List F) (j t : Nat) : F :=
  match it.consumers[j]? with
  | some c => seriesAt (series c) t
  | none => 0

end SimulationKey
