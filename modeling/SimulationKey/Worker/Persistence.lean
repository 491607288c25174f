import SimulationKey.Backend.Moves

/-!
# Recording an outcome

`worker/persistence.py`. Both helpers claim the row with an UPDATE that selects
it while it is PENDING and go on only when the claim flipped it; the audit entry
and the event follow the commit, in a CRM session of their own.
-/

namespace SimulationKey

open Kit Kit.Prog Kit.Text

variable {F B α : Type}

/-! ## Sessions -/

/-- `async with AsyncSessionLocalFactory()`. -/
def withLocalSession (s : SessionKind) (body : Act F B α) : Act F B α :=
  body.ensuring (await (.closeLocal s))

/-- `async with AsyncSessionCRMFactory()`. -/
def withCrmSession (s : SessionKind) (body : Act F B α) : Act F B α :=
  body.ensuring (await (.closeCrm s))

/-! ## The result tree -/

def buildConsumerResult (idCommunity : Nat) (c : ConsumerSimResult F) :
    SimulationConsumerResultModel F :=
  { name := c.name
    energyAllocatedPercentage := c.energyAllocatedPercentage
    consumptionTotal := c.consumptionTotal
    energyAllocatedTotal := c.energyAllocatedTotal
    energyAllocatedConsumedTotal := c.energyAllocatedConsumedTotal
    residualVolumeTotal := c.residualVolumeTotal
    surplusTotal := c.surplusTotal
    idCommunity := idCommunity }

def buildIterationResult (idCommunity : Nat) (it : IterationSimResult F) :
    SimulationIterationResultModel F :=
  { number := it.number
    energyAllocatedPercentage := it.energyAllocatedPercentage
    consumptionTotal := it.consumptionTotal
    energyAllocatedTotal := it.energyAllocatedTotal
    energyAllocatedConsumedTotal := it.energyAllocatedConsumedTotal
    residualVolumeTotal := it.residualVolumeTotal
    surplusTotal := it.surplusTotal
    sharingRateTotal := it.sharingRateTotal
    selfSufficiencyRateTotal := it.selfSufficiencyRateTotal
    idCommunity := idCommunity
    consumers := it.consumers.map (buildConsumerResult idCommunity) }

/-- The scalar result tree: key, iterations, consumers. -/
def buildKeyResult (result : KeySimResult F) (simulationId idCommunity : Nat) :
    SimulationKeyResultModel F :=
  { name := result.name
    description := result.description
    consumptionTotal := result.consumptionTotal
    energyAllocatedTotal := result.energyAllocatedTotal
    energyAllocatedConsumedTotal := result.energyAllocatedConsumedTotal
    residualVolumeTotal := result.residualVolumeTotal
    surplusTotal := result.surplusTotal
    selfSufficiencyRateTotal := result.selfSufficiencyRateTotal
    sharingRateTotal := result.sharingRateTotal
    idSimulation := simulationId
    idCommunity := idCommunity
    iterations := result.iterations.map (buildIterationResult idCommunity) }

/-! ## The two outcomes -/

/-- `_ERROR_MESSAGE_MAX_LEN`. -/
def errorMessageMaxLen : Nat := 2000

/-- What `save_success` sets. -/
def successValues (resultStorageKey : ResultKey) : RowValues :=
  { status := some .success
    errorMessage := some none
    resultStorageKey := some (some resultStorageKey) }

/-- What `save_failure` sets. -/
def failureValues (errorMessage : String) : RowValues :=
  { status := some .failed
    errorMessage := some (some (clip errorMessageMaxLen errorMessage))
    resultStorageKey := none }

/-- The claim and what its transaction holds besides, with the row's community
when they committed. -/
def claimAndCommit (values : SimulationModel → RowValues) (rest : SimulationModel → Act F B Unit) :
    Act F B (Option Nat) :=
  withLocalSession .own do
    match ← await (.getRow .own) with
    | none => pure none
    | some simulation =>
      let rowcount ← await (.claim .own (values simulation))
      if rowcount = 0 then pure none
      else
        rest simulation
        await (.commitLocal .own)
        pure (some simulation.idCommunity)

/-- The audit entry of an outcome, then its event. -/
def announce (simulationId idCommunity : Nat) (payload : AuditPayload)
    (hint : SimulationStatus) : Act F B Unit := do
  withCrmSession .own do
    await (.logAudit .own
      { payload := payload, entityId := simulationId, idCommunity := idCommunity })
    await (.commitCrm .own)
  await (.emit hint)

def resultKeyOf (simulationId : Nat) (simulation : SimulationModel) : ResultKey :=
  { community := simulation.idCommunity, simulation := simulationId }

/-- `save_success`: claim, tree, upload and commit, then audit and event. -/
def saveSuccess (simulationId : Nat) (result : KeySimResult F) (timeseriesPath : Nat) :
    Act F B Unit := do
  let committed ← claimAndCommit (fun simulation => successValues (resultKeyOf simulationId simulation))
    fun simulation => do
      await (.insertTree .own (buildKeyResult result simulationId simulation.idCommunity))
      await (.uploadFile (resultKeyOf simulationId simulation) timeseriesPath)
  match committed with
  | none => pure ()
  | some idCommunity =>
    announce simulationId idCommunity (.succeeded result.iterations.length) .success

/-- `save_failure`: claim and commit, then audit and event. -/
def saveFailure (simulationId : Nat) (errorMessage : String) : Act F B Unit := do
  let committed ← claimAndCommit (fun _ => failureValues errorMessage) fun _ => pure ()
  match committed with
  | none => pure ()
  | some idCommunity =>
    announce simulationId idCommunity (.failed (clip errorMessageMaxLen errorMessage)) .failed

end SimulationKey
