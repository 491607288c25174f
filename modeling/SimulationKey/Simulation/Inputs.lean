import SimulationKey.Kit.Float

/-!
# The allocation key, as stored and as simulated

`simulation/inputs.py`, `simulation/key_mapping.py` and the three tables of
`shared/models/crm_models.py` they read. The CRM returns a key's iterations and
consumers in no particular order; the mapping sorts the iterations by number
and keeps each consumer list as it comes.
-/

namespace SimulationKey

open Kit

variable {F : Type}

/-! ## The CRM tree -/

structure ConsumerModel (F : Type) where
  name : String
  energyAllocatedPercentage : F
  deriving DecidableEq, Repr

structure IterationModel (F : Type) where
  number : Int
  energyAllocatedPercentage : F
  consumers : List (ConsumerModel F)
  deriving DecidableEq, Repr

structure AllocationKeyModel (F : Type) where
  name : String
  description : String
  iterations : List (IterationModel F)
  deriving DecidableEq, Repr

/-! ## The simulation's input -/

/-- A consumer of one iteration. The percentage is a FIXED fraction or the
sentinel `-1` for PRORATA. -/
structure SimulationConsumerInput (F : Type) where
  name : String
  energyAllocatedPercentage : F
  deriving DecidableEq, Repr

structure SimulationIterationInput (F : Type) where
  number : Int
  energyAllocatedPercentage : F
  consumers : List (SimulationConsumerInput F)
  deriving DecidableEq, Repr

structure SimulationKeyInput (F : Type) where
  name : String
  description : String
  iterations : List (SimulationIterationInput F)
  deriving DecidableEq, Repr

/-! ## The mapping -/

def fromCrmConsumer (c : ConsumerModel F) : SimulationConsumerInput F :=
  { name := c.name, energyAllocatedPercentage := c.energyAllocatedPercentage }

def fromCrmIteration (it : IterationModel F) : SimulationIterationInput F :=
  { number := it.number
    energyAllocatedPercentage := it.energyAllocatedPercentage
    consumers := it.consumers.map fromCrmConsumer }

/-- The key's iterations in the order the cascade runs them: a stable sort by
number. -/
def sortedIterations (key : AllocationKeyModel F) : List (IterationModel F) :=
  key.iterations.insertionSort fun a b => a.number ≤ b.number

def fromCrmAllocationKey (key : AllocationKeyModel F) : SimulationKeyInput F :=
  { name := key.name
    description := key.description
    iterations := (sortedIterations key).map fromCrmIteration }

/-- Canonical consumer order, taken from the first iteration. -/
def consumerNamesOf (key : SimulationKeyInput F) : List String :=
  match key.iterations with
  | [] => []
  | it :: _ => it.consumers.map (·.name)

/-- A key that lists the same consumers in each of its iterations, the
iterations taking the given shares of the production. -/
def keyOfShares (shares : List F) (consumers : List (SimulationConsumerInput F)) :
    SimulationKeyInput F :=
  { name := "k"
    description := "d"
    iterations := shares.zipIdx.map fun x =>
      { number := x.2 + 1, energyAllocatedPercentage := x.1, consumers := consumers } }

theorem sortedIterations_perm (key : AllocationKeyModel F) :
    (sortedIterations key).Perm key.iterations :=
  List.perm_insertionSort _ _

end SimulationKey
