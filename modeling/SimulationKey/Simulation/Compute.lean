import SimulationKey.Kit.Text
import SimulationKey.Simulation.Inputs
import SimulationKey.Simulation.Result

/-!
# `simulation/compute.py`

The solve: one pass per iteration of the key, each fed by the unmet demand and
the surplus of the pass before it, then the key-level roll-ups. Arrays are
`Mat`s of a declared shape; past the shape checks they are functions on `Fin`,
so no later definition can index outside them.
-/

namespace SimulationKey

open Kit PyFloat Kit.Text

variable {F : Type}

/-- A two-dimensional array of shape `(rows, cols)`. -/
structure Mat (F : Type) where
  rows : Nat
  cols : Nat
  get : Fin rows → Fin cols → F

/-- The entry of row `i`, column `t` (0 outside the shape). -/
def Mat.at [Zero F] (m : Mat F) (i t : Nat) : F :=
  if h : i < m.rows ∧ t < m.cols then m.get ⟨i, h.1⟩ ⟨t, h.2⟩ else 0

/-- Structurally invalid simulation inputs (a deterministic failure), with what
the message reports. -/
inductive SimulationInputError where
  | noIterations
  | noConsumers
  | consumptionShape (shape : Nat × Nat) (n : Nat)
  | productionShape (va c : Nat × Nat)
  | missingConsumer (number : Int) (name : String)
  deriving DecidableEq, Repr

def SimulationInputError.message : SimulationInputError → String
  | .noIterations => "key has no iterations"
  | .noConsumers => "no consumers"
  | .consumptionShape shape n =>
    s!"consumption matrix rows {reprShape shape} do not match consumer count {n}"
  | .productionShape va c =>
    s!"production matrix shape {reprShape va} incompatible with consumption {reprShape c}"
  | .missingConsumer number name => s!"iteration {number} is missing consumer {pyRepr name}"

section Arithmetic

variable [PyFloat F]

/-- `max(0, x)`, via `(x + |x|) / 2`. -/
def relu (x : F) : F := (x + PyFloat.abs x) / (1 + 1)

/-- Division that yields 0 where the denominator is 0. -/
def safeDivide (num den : F) : F := if den ≠ 0 then num / den else 0

@[simp] theorem relu_rat (x : ℚ) : relu x = max 0 x := by
  unfold relu
  rw [abs_rat]
  rcases le_total 0 x with h | h
  · rw [abs_of_nonneg h, max_eq_right h]; ring
  · rw [abs_of_nonpos h, max_eq_left h]; ring

@[simp] theorem safeDivide_rat (num den : ℚ) : safeDivide num den = num / den := by
  unfold safeDivide
  split_ifs with h
  · rfl
  · rw [not_not.mp h, div_zero]

end Arithmetic

/-- A run known by what is read off its result. -/
theorem result_of_map {ε α β : Type} {run : Except ε α} {f : α → β} {b : β}
    (h : run.map f = .ok b) : ∃ res, run = .ok res ∧ f res = b := by
  cases run with
  | error e => cases h
  | ok res => exact ⟨res, rfl, Except.ok.inj h⟩

/-! ## Percentages by name -/

/-- `name_to_pct`: a later consumer of the same name overwrites an earlier one. -/
def nameToPct (it : SimulationIterationInput F) (name : String) : Option F :=
  (it.consumers.reverse.find? (·.name == name)).map (·.energyAllocatedPercentage)

/-- The first of the run's consumers the iteration does not list (the `KeyError`). -/
def missingConsumer (it : SimulationIterationInput F) (consumerNames : List String) :
    Option String :=
  consumerNames.find? fun name => (nameToPct it name).isNone

/-- The percentages aligned to `consumerNames`. The default is never read: the
loop stops at a missing consumer first. -/
def pcts [Zero F] (it : SimulationIterationInput F) (consumerNames : List String) :
    Fin consumerNames.length → F :=
  fun j => (nameToPct it (consumerNames.get j)).getD 0

theorem nameToPct_eq_some {it : SimulationIterationInput F} {name : String} {pct : F}
    (h : nameToPct it name = some pct) :
    ∃ c ∈ it.consumers, c.name = name ∧ c.energyAllocatedPercentage = pct := by
  obtain ⟨c, hfind, hpct⟩ := Option.map_eq_some_iff.mp h
  exact ⟨c, List.mem_reverse.mp (List.mem_of_find?_eq_some hfind),
    by simpa using List.find?_some hfind, hpct⟩

/-- `name_to_pct` has a name exactly when the iteration lists it. -/
theorem nameToPct_isSome_iff {it : SimulationIterationInput F} {name : String} :
    (nameToPct it name).isSome ↔ name ∈ it.consumers.map (·.name) := by
  simp only [nameToPct, Option.isSome_map, List.find?_isSome, List.mem_reverse, List.mem_map,
    beq_iff_eq]

theorem missingConsumer_eq_none_iff {it : SimulationIterationInput F}
    {consumerNames : List String} :
    missingConsumer it consumerNames = none ↔
      ∀ name ∈ consumerNames, name ∈ it.consumers.map (·.name) := by
  rw [missingConsumer, List.find?_eq_none]
  refine forall₂_congr fun name _ => ?_
  rw [← nameToPct_isSome_iff]
  cases nameToPct it name <;> simp

/-- A listed consumer whose name no later one repeats keeps its own percentage. -/
theorem nameToPct_of_nodup {it : SimulationIterationInput F}
    (hnodup : (it.consumers.map (·.name)).Nodup) {c : SimulationConsumerInput F}
    (hc : c ∈ it.consumers) : nameToPct it c.name = some c.energyAllocatedPercentage := by
  have hsome : (nameToPct it c.name).isSome :=
    nameToPct_isSome_iff.mpr (List.mem_map_of_mem hc)
  obtain ⟨pct, hpct⟩ := Option.isSome_iff_exists.mp hsome
  obtain ⟨c', hc', hname, rfl⟩ := nameToPct_eq_some hpct
  rw [hpct, List.inj_on_of_nodup_map hnodup hc' hc hname]

/-! ## One iteration -/

section Iteration

variable [PyFloat F] {n T : Nat}

/-- What one iteration hands the next: unmet demand and unused supply. -/
structure Carry (F : Type) (n T : Nat) where
  residual : Fin n → Fin T → F
  surplus : Fin T → F

/-- The arrays one pass of the loop starts from: the supply series, the demand
and the allocation of each consumer. -/
structure Pass (F : Type) (n T : Nat) where
  va : Fin T → F
  consumption : Fin n → Fin T → F
  allocated : Fin n → Fin T → F

namespace Pass

variable (p : Pass F n T) (j : Fin n) (t : Fin T)

def residual : F := relu (p.consumption j t - p.allocated j t)

def surplus : F := relu (p.allocated j t - p.consumption j t)

def consumed : F := min (p.consumption j t) (p.allocated j t)

/-! Iteration aggregates: the sums across consumers at a timestep. -/

def consumptionSeries : F := axisSum (.column n T) fun j => p.consumption j t

def consumedSeries : F := axisSum (.column n T) fun j => p.consumed j t

def residualSeries : F := axisSum (.column n T) fun j => p.residual j t

def surplusSeries : F := axisSum (.column n T) fun j => p.surplus j t

def carry : Carry F n T :=
  { residual := p.residual
    surplus := p.surplusSeries }

end Pass

/-- PRORATA weights: consumer `j`'s share of total consumption at each timestep. -/
def prorataWeights (C : Fin n → Fin T → F) : Fin n → Fin T → F :=
  fun j t => safeDivide (C j t) (axisSum (.column n T) fun i => C i t)

/-- Per-consumer multiplier: the fraction of a FIXED consumer, the weight of a
PRORATA one. -/
def multiplier (weights : Fin n → Fin T → F) (pct : Fin n → F) : Fin n → Fin T → F :=
  fun j t => if -1 < pct j then pct j else weights j t

/-- Production available to an iteration. -/
def vaSeries (production : Fin T → F) (share : F) : Option (Carry F n T) → Fin T → F
  | none => fun t => production t * share
  | some prev => fun t => production t * share + prev.surplus t

/-- Demand an iteration starts from. -/
def consumptionMatrix (C : Fin n → Fin T → F) : Option (Carry F n T) → Fin n → Fin T → F
  | none => C
  | some prev => prev.residual

def allocationPass (production : Fin T → F) (C weights : Fin n → Fin T → F) (share : F)
    (pct : Fin n → F) (prev : Option (Carry F n T)) : Pass F n T :=
  { va := vaSeries production share prev
    consumption := consumptionMatrix C prev
    allocated := fun j t => vaSeries production share prev t * multiplier weights pct j t }

/-! ## Results of a pass -/

def consumerResult (p : Pass F n T) (name : String) (pct : F) (j : Fin n) :
    ConsumerSimResult F :=
  { name := name
    energyAllocatedPercentage := pct
    consumption := List.ofFn (p.consumption j)
    consumptionTotal := axisSum .series (p.consumption j)
    energyAllocated := List.ofFn (p.allocated j)
    energyAllocatedTotal := axisSum .series (p.allocated j)
    energyAllocatedConsumed := List.ofFn (p.consumed j)
    energyAllocatedConsumedTotal := axisSum .series (p.consumed j)
    residualVolume := List.ofFn (p.residual j)
    residualVolumeTotal := axisSum .series (p.residual j)
    surplus := List.ofFn (p.surplus j)
    surplusTotal := axisSum .series (p.surplus j) }

/-- A rate's series: zeros when one of the two totals is 0, the guarded
pointwise quotient otherwise. -/
def rateSeries (num den : Fin T → F) (numTotal denTotal : F) : Fin T → F :=
  if denTotal = 0 ∨ numTotal = 0 then fun _ => 0 else fun t => safeDivide (num t) (den t)

/-- A rate's total, under the same guard. -/
def rateTotal (numTotal denTotal : F) : F :=
  if denTotal = 0 ∨ numTotal = 0 then 0 else numTotal / denTotal

def iterationResult (consumerNames : List String) (it : SimulationIterationInput F)
    (p : Pass F consumerNames.length T) : IterationSimResult F :=
  let energyAllocatedTotal := axisSum .series p.va
  let consumedTotal := axisSum .series p.consumedSeries
  let consumptionTotal := axisSum .series p.consumptionSeries
  { number := it.number
    energyAllocatedPercentage := it.energyAllocatedPercentage
    consumption := List.ofFn p.consumptionSeries
    consumptionTotal := consumptionTotal
    energyAllocated := List.ofFn p.va
    energyAllocatedTotal := energyAllocatedTotal
    energyAllocatedConsumed := List.ofFn p.consumedSeries
    energyAllocatedConsumedTotal := consumedTotal
    residualVolume := List.ofFn p.residualSeries
    residualVolumeTotal := axisSum .series p.residualSeries
    surplus := List.ofFn p.surplusSeries
    surplusTotal := axisSum .series p.surplusSeries
    sharingRate := List.ofFn (rateSeries p.consumedSeries p.va consumedTotal energyAllocatedTotal)
    sharingRateTotal := rateTotal consumedTotal energyAllocatedTotal
    selfSufficiencyRate :=
      List.ofFn (rateSeries p.consumedSeries p.consumptionSeries consumedTotal consumptionTotal)
    selfSufficiencyRateTotal := rateTotal consumedTotal consumptionTotal
    consumers := List.ofFn fun j =>
      consumerResult p (consumerNames.get j) (pcts it consumerNames j) j }

/-! ## The loop and the roll-ups -/

/-- The `for it in key.iterations` loop, from the carry of the pass before. -/
def runIterations (consumerNames : List String) (production : Fin T → F)
    (C weights : Fin consumerNames.length → Fin T → F) :
    List (SimulationIterationInput F) → Option (Carry F consumerNames.length T) →
      Except SimulationInputError (List (IterationSimResult F))
  | [], _ => .ok []
  | it :: rest, prev =>
    match missingConsumer it consumerNames with
    | some name => .error (.missingConsumer it.number name)
    | none =>
      let p := allocationPass production C weights it.energyAllocatedPercentage
        (pcts it consumerNames) prev
      match runIterations consumerNames production C weights rest (some p.carry) with
      | .error e => .error e
      | .ok results => .ok (iterationResult consumerNames it p :: results)

/-- Key-level metrics: consumption and available production of the first
iteration, self-consumption summed over all, surplus and residual of the last. -/
def keyResult (key : SimulationKeyInput F) (first : IterationSimResult F)
    (rest : List (IterationSimResult F)) : KeySimResult F :=
  let last := (first :: rest).getLast (List.cons_ne_nil first rest)
  let consumedTotalAll := sumBy .builtin ((first :: rest).map (·.energyAllocatedConsumedTotal))
  let consumptionTotalKey := first.consumptionTotal
  let energyAllocatedTotalKey := first.energyAllocatedTotal
  { name := key.name
    description := key.description
    consumptionTotal := consumptionTotalKey
    energyAllocatedTotal := energyAllocatedTotalKey
    energyAllocatedConsumedTotal := consumedTotalAll
    residualVolumeTotal := last.residualVolumeTotal
    surplusTotal := last.surplusTotal
    selfSufficiencyRateTotal :=
      if consumptionTotalKey ≠ 0 then consumedTotalAll / consumptionTotalKey else 0
    sharingRateTotal :=
      if energyAllocatedTotalKey ≠ 0 then consumedTotalAll / energyAllocatedTotalKey else 0
    iterations := first :: rest }

/-- Run the full multi-iteration simulation. The rows of `C` are aligned to
`consumerNames`; the production series is the first row of `VA`. -/
def runSimulation (key : SimulationKeyInput F) (C VA : Mat F) (consumerNames : List String) :
    Except SimulationInputError (KeySimResult F) :=
  if key.iterations.isEmpty then .error .noIterations
  else if consumerNames.isEmpty then .error .noConsumers
  else if hC : C.rows = consumerNames.length then
    if hVA : 1 ≤ VA.rows ∧ VA.cols = C.cols then
      let consumption := fun (j : Fin consumerNames.length) t => C.get (j.cast hC.symm) t
      let production := fun t : Fin C.cols => VA.get ⟨0, hVA.1⟩ (t.cast hVA.2.symm)
      match runIterations consumerNames production consumption (prorataWeights consumption)
          key.iterations none with
      | .error e => .error e
      -- the loop returns one result per iteration, and there is one
      | .ok [] => .error .noIterations
      | .ok (first :: rest) => .ok (keyResult key first rest)
    else .error (.productionShape (VA.rows, VA.cols) (C.rows, C.cols))
  else .error (.consumptionShape (C.rows, C.cols) consumerNames.length)

end Iteration

end SimulationKey
