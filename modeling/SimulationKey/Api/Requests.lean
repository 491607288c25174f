import SimulationKey.Api.Tenancy
import SimulationKey.Api.TimeseriesReader

/-!
# Requests and their responses

The seven routes of `api/simulation/routes.py`, from the community that the
request is resolved to. The three that read go through `with_community_scope`;
the preview and both starts refuse a request without a community, and pass it on;
a deletion starts from a row that it has found in scope.
-/

namespace SimulationKey

open Kit Kit.Prog

variable {F B L : Type}

/-! ## Schemas -/

structure ConsumerResult (F : Type) where
  name : String
  energyAllocatedPercentage : F
  consumptionTotal : F
  energyAllocatedTotal : F
  energyAllocatedConsumedTotal : F
  residualVolumeTotal : F
  surplusTotal : F

structure IterationResult (F : Type) where
  number : Int
  energyAllocatedPercentage : F
  consumptionTotal : F
  energyAllocatedTotal : F
  energyAllocatedConsumedTotal : F
  residualVolumeTotal : F
  surplusTotal : F
  sharingRateTotal : F
  selfSufficiencyRateTotal : F
  consumers : List (ConsumerResult F)

structure KeyResult (F : Type) where
  name : String
  description : String
  consumptionTotal : F
  energyAllocatedTotal : F
  energyAllocatedConsumedTotal : F
  residualVolumeTotal : F
  surplusTotal : F
  selfSufficiencyRateTotal : F
  sharingRateTotal : F
  iterations : List (IterationResult F)

structure SimulationDetail (F : Type) extends Simulation where
  errorMessage : Option String
  hasTimeseries : Bool
  keyResult : Option (KeyResult F)

structure PreviewBlocker where
  errorCode : Nat
  message : String
  detail : String

structure CrmDataPreview (F : Type) where
  canSimulate : Bool
  matchedParticipants : List String
  unmatchedParticipants : List String
  meterCount : Nat
  readingCount : Nat
  firstTimestamp : Option Int
  lastTimestamp : Option Int
  totalConsumptionKwh : F
  totalInjectionKwh : F
  incompleteMeters : List IncompleteMeter
  blockers : List PreviewBlocker

/-! ## Mappers -/

def toConsumerResultSchema (consumer : SimulationConsumerResultModel F) : ConsumerResult F :=
  { name := consumer.name
    energyAllocatedPercentage := consumer.energyAllocatedPercentage
    consumptionTotal := consumer.consumptionTotal
    energyAllocatedTotal := consumer.energyAllocatedTotal
    energyAllocatedConsumedTotal := consumer.energyAllocatedConsumedTotal
    residualVolumeTotal := consumer.residualVolumeTotal
    surplusTotal := consumer.surplusTotal }

def toIterationResultSchema (iteration : SimulationIterationResultModel F) : IterationResult F :=
  { number := iteration.number
    energyAllocatedPercentage := iteration.energyAllocatedPercentage
    consumptionTotal := iteration.consumptionTotal
    energyAllocatedTotal := iteration.energyAllocatedTotal
    energyAllocatedConsumedTotal := iteration.energyAllocatedConsumedTotal
    residualVolumeTotal := iteration.residualVolumeTotal
    surplusTotal := iteration.surplusTotal
    sharingRateTotal := iteration.sharingRateTotal
    selfSufficiencyRateTotal := iteration.selfSufficiencyRateTotal
    consumers := iteration.consumers.map toConsumerResultSchema }

/-- The iterations in the order of their numbers. -/
def toKeyResultSchema (keyResult : SimulationKeyResultModel F) : KeyResult F :=
  { name := keyResult.name
    description := keyResult.description
    consumptionTotal := keyResult.consumptionTotal
    energyAllocatedTotal := keyResult.energyAllocatedTotal
    energyAllocatedConsumedTotal := keyResult.energyAllocatedConsumedTotal
    residualVolumeTotal := keyResult.residualVolumeTotal
    surplusTotal := keyResult.surplusTotal
    selfSufficiencyRateTotal := keyResult.selfSufficiencyRateTotal
    sharingRateTotal := keyResult.sharingRateTotal
    iterations := (keyResult.iterations.insertionSort (·.number ≤ ·.number)).map
      toIterationResultSchema }

def toSimulationDetail (simulation : SimulationModel)
    (keyResult : Option (SimulationKeyResultModel F)) : SimulationDetail F :=
  { toSimulation := toSimulationSchema simulation
    errorMessage := simulation.errorMessage
    hasTimeseries := simulation.resultStorageKey.isSome
    keyResult := keyResult.map toKeyResultSchema }

/-- `to_crm_data_preview`, over the catalogue of the request's locale. -/
def toCrmDataPreview [PyFloat F] (translate : String → String) (preflight : Preflight F) :
    CrmDataPreview F :=
  let summary := preflight.summary
  { canSimulate := preflight.ok
    matchedParticipants := preflight.matched
    unmatchedParticipants := preflight.unmatched
    meterCount := summary.eans.length
    readingCount := summary.totalRows
    firstTimestamp := summary.firstTimestamp
    lastTimestamp := summary.lastTimestamp
    totalConsumptionKwh := PyFloat.sumBy .builtin (summary.eans.map (·.consumptionKwh))
    totalInjectionKwh := summary.totalInjectionKwh
    incompleteMeters := incompleteMeters summary preflight.matched
    blockers := preflight.blockers.map fun b =>
      { errorCode := b.error.code
        message := translate b.error.key
        detail := b.detail } }

/-! ## Errors -/

/-- The errors a route answers with, besides those of the service's programs. -/
inductive RequestError where
  | service (e : ApiError)
  | unauthorized
  | resultNotFound
  | timeseriesTooLarge
  | getSimulations
  | getSimulation
  | getTimeseries
  | getCrmPreview
  | deleteSimulation
  deriving DecidableEq, Repr

inductive Response (F : Type) where
  | cancelled
  | refused (error : RequestError) (statusCode : Nat)
  | simulations (data : List Simulation) (pagination : Pagination)
  | simulation (data : SimulationDetail F)
  | streamed (sent : List (List UInt8)) (whole : Bool)
  | sampled (iterations : List (IterationTimeseries F)) (stride : Nat)
  | preview (data : CrmDataPreview F)
  | started (data : SimulateResponse)
  | deleted

/-! ## Reading -/

inductive ReadOp where
  | getListSimulations (page pageSize : Int) (query : QueryParams)
  | getSimulation (id : Nat)
  | getSimulationRow (id : Nat)
  | iterObject (key : ResultKey) (maxBytes : Option Nat)

/-- `iterObject` answers the chunks it has read, and whether these are all. -/
@[reducible] def ReadOp.Resp (F : Type) : ReadOp → Type
  | getListSimulations .. => Except ListError (List Simulation × Pagination)
  | getSimulation _ => Option (SimulationModel × Option (SimulationKeyResultModel F))
  | getSimulationRow _ => Option SimulationModel
  | iterObject .. => List (List UInt8) × Bool

inductive ReadExn where
  | cancelled
  | refused (error : RequestError) (statusCode : Nat)
  | objectNotFound
  | objectTooLarge
  | other (text : String)

abbrev ReadAct (F α : Type) : Type := Prog ReadOp (ReadOp.Resp F) ReadExn α

abbrev query (o : ReadOp) : ReadAct F (o.Resp F) := Prog.perform o

section Reading

/-- `FULL_TIMESERIES_MAX_BYTES`. -/
def fullTimeseriesMaxBytes : Nat := 64 * 1024 * 1024

/-- `get_simulations`. -/
def readSimulations (page pageSize : Int) (params : QueryParams) :
    ReadAct F (List Simulation × Pagination) := do
  match ← query (.getListSimulations page pageSize params) with
  | .error _ => raise (.other "")
  | .ok answer => pure answer

/-- `get_simulation`. -/
def readSimulation (id : Nat) : ReadAct F (SimulationDetail F) := do
  match ← query (.getSimulation id) with
  | none => raise (.refused (.service .simulationNotFound) 404)
  | some (simulation, keyResult) => pure (toSimulationDetail simulation keyResult)

/-- `_result_storage_key`. -/
def resultStorageKey (id : Nat) : ReadAct F ResultKey := do
  match ← query (.getSimulationRow id) with
  | none => raise (.refused (.service .simulationNotFound) 404)
  | some simulation =>
    match simulation.resultStorageKey with
    | none => raise (.refused .resultNotFound 404)
    | some key => pure key

/-- What a stream sends of an object, and whether it ends as it should. -/
def sentOf (read : List (List UInt8) × Bool) : List (List UInt8) × Bool :=
  if read.2 then ((asApiResponse read.1).1, (asApiResponse read.1).2.isNone)
  else
    (((pieces .outside read.1).1.foldl Passing.piece
      { sent := [], out := responsePrefix, held := [] }).sent, false)

/-- `stream_timeseries`. The first chunk is awaited. -/
def streamTimeseries (id : Nat) : ReadAct F (List (List UInt8) × Bool) := do
  let key ← resultStorageKey id
  let read ← (query (.iterObject key (some fullTimeseriesMaxBytes))).tryCatch fun
    | .objectNotFound => raise (.refused .resultNotFound 404)
    | .objectTooLarge => raise (.refused .timeseriesTooLarge 422)
    | e => raise e
  if read.1 = [] then raise (.other "") else pure (sentOf read)

/-- `sample_timeseries`. -/
def sampleTimeseries [PyFloat F] (floatOf : List Char → F) (intOf : Json → Option Int)
    (id maxPoints : Nat) : ReadAct F (List (IterationTimeseries F) × Nat) := do
  let key ← resultStorageKey id
  let read ← (query (.iterObject key none)).tryCatch fun
    | .objectNotFound => raise (.refused .resultNotFound 404)
    | e => raise e
  match read.2, readIterations floatOf intOf read.1 maxPoints with
  | true, .ok data => pure data
  | _, _ => raise (.other "")

/-- `delete_simulation` without a community: its first query selects no row. -/
def deleteUnscoped (id : Nat) : ReadAct F Unit := do
  match ← query (.getSimulationRow id) with
  | none => raise (.refused (.service .simulationNotFound) 404)
  | some _ => pure ()

variable (db : Collation) (internalId : Option Nat) (s : Stores F B)

/-- A query that goes through. -/
def readAnswer : (o : ReadOp) → Except ReadExn (o.Resp F) → Prop
  | .getListSimulations page pageSize params, r => ∃ answer,
    MayList db internalId (s.simulations.map (·.simulation)) params page pageSize answer ∧
      r = .ok answer
  | .getSimulation id, r =>
    match findSimulation internalId s.simulations id with
    | none => r = .ok none
    | some run =>
      if run.keyResults = [] then r = .ok (some (run.simulation, none))
      else ∃ tree ∈ run.keyResults, ∃ loaded, tree.LoadedAs loaded ∧
        r = .ok (some (run.simulation, some loaded))
  | .getSimulationRow id, r =>
    r = .ok ((findSimulation internalId s.simulations id).map (·.simulation))
  | .iterObject key maxBytes, r =>
    match s.results key with
    | none => r = .error .objectNotFound
    | some content =>
      if maxBytes.any (· < content.length) then r = .error .objectTooLarge
      else ∃ chunks whole, (if whole then chunks.flatten = content else chunks.flatten <+: content) ∧
        (∀ chunk ∈ chunks, chunk ≠ []) ∧ r = .ok (chunks, whole)

/-- A query, as the outside has it. Nothing changes. -/
def readMay (o : ReadOp) (choice : Choice) (_ : Unit) (r : Except ReadExn (o.Resp F)) (_ : Unit) :
    Prop :=
  match choice with
  | .ok => readAnswer db internalId s o r
  | .fail (.other text) => r = .error (.other text)
  | .fail .cancelled => r = .error .cancelled
  | _ => False

end Reading

/-! ## Routes -/

/-- What the API is given: the libraries, the database's part, the first instant of
each day, what a validation accepts as numbers, and the catalogues. -/
structure ApiContext (F B L : Type) where
  lib : Libraries F B L
  db : Collation
  midnight : Nat → Int
  floatOf : List Char → F
  intOf : Json → Option Int
  translate : String → String → String

inductive Request (B : Type) where
  | getSimulations (page pageSize : Int) (params : QueryParams)
  | getSimulation (id : Nat)
  | getTimeseries (id : Nat) (maxPoints : Option Nat)
  | getCrmDataPreview (locale : String) (idKey idSharingOperation periodStart periodEnd : Nat)
  | startSimulation (req : SimulateRequest) (file : UploadFile B)
  | startSimulationFromCrm (req : SimulateFromCrmRequest)
  | deleteSimulation (id : Nat)

/-- `with_default_error`. -/
def withDefaultError {α : Type} (default : RequestError) (body : α → Response F) :
    Except Exn α → Response F
  | .ok a => body a
  | .error (.errorException error statusCode) => .refused (.service error) statusCode
  | .error .cancelled => .cancelled
  | .error _ => .refused default 400

/-- `with_default_error`, around a route that reads. -/
def readWithDefaultError {α : Type} (default : RequestError) (body : α → Response F) :
    Except ReadExn α → Response F
  | .ok a => body a
  | .error (.refused error statusCode) => .refused error statusCode
  | .error .cancelled => .cancelled
  | .error _ => .refused default 400

section Routes

variable [PyFloat F] (api : ApiContext F B L)

/-- A route that reads. -/
def Reads {α : Type} (internalId : Option Nat) (faults : List Choice) (program : ReadAct F α)
    (default : RequestError) (body : α → Response F) (s : Stores F B) (r : Response F)
    (s' : Stores F B) : Prop :=
  s' = s ∧ ∃ outcome,
    program.Traces (readMay api.db internalId s) () faults outcome () ∧
      r = readWithDefaultError default body outcome

/-- A route that runs a program of the service. -/
def Conducts {α : Type} (self : Nat) (faults : List Choice) (program : Act F B α)
    (default : RequestError) (body : α → Response F) (s : Stores F B) (r : Response F)
    (s' : Stores F B) : Prop :=
  ∃ outcome t,
    (withRequestSessions program).Traces (requestMay api.midnight self) s.begin faults outcome t ∧
      s' = t.stores ∧ r = withDefaultError default body outcome

/-- A route that requires a community. -/
def Requires (internalId : Option Nat) (faults : List Choice) (s : Stores F B) (r : Response F)
    (s' : Stores F B) (route : Nat → Prop) : Prop :=
  match internalId with
  | none => faults = [] ∧ s' = s ∧ r = .refused .unauthorized 401
  | some c => route c

/-- An id that the next insertion may give. -/
def Stores.Unused (s : Stores F B) (id : Nat) : Prop :=
  ∀ run ∈ s.simulations, run.simulation.id ≠ id

/-- How a request may be answered, and what it leaves, under the given faults. -/
def Responds (internalId : Option Nat) (faults : List Choice) :
    Request B → Stores F B → Response F → Stores F B → Prop
  | .getSimulations page pageSize params, s, r, s' =>
    Reads api internalId faults (readSimulations page pageSize params) .getSimulations
      (fun x => .simulations x.1 x.2) s r s'
  | .getSimulation id, s, r, s' =>
    Reads api internalId faults (readSimulation id) .getSimulation .simulation s r s'
  | .getTimeseries id none, s, r, s' =>
    Reads api internalId faults (streamTimeseries id) .getTimeseries
      (fun x => .streamed x.1 x.2) s r s'
  | .getTimeseries id (some maxPoints), s, r, s' =>
    Reads api internalId faults (sampleTimeseries api.floatOf api.intOf id maxPoints)
      .getTimeseries (fun x => .sampled x.1 x.2) s r s'
  | .getCrmDataPreview locale idKey operation periodStart periodEnd, s, r, s' =>
    Requires internalId faults s r s' fun c =>
      Conducts api 0 faults (previewCrmData idKey operation periodStart periodEnd c) .getCrmPreview
        (fun preflight => .preview (toCrmDataPreview (api.translate locale) preflight)) s r s'
  | .startSimulation req file, s, r, s' =>
    Requires internalId faults s r s' fun c => ∃ newId uuid, s.Unused newId ∧
      Conducts api newId faults (startSimulation api.lib newId uuid req file c)
        (.service .startSimulation) .started s r s'
  | .startSimulationFromCrm req, s, r, s' =>
    Requires internalId faults s r s' fun c => ∃ newId, s.Unused newId ∧
      Conducts api newId faults (startSimulationFromCrm newId req c)
        (.service .startSimulation) .started s r s'
  | .deleteSimulation id, s, r, s' =>
    match internalId with
    | none =>
      Reads api none faults (deleteUnscoped id) .deleteSimulation (fun _ => .deleted) s r s'
    | some c =>
      Conducts api id faults (deleteSimulation id c) .deleteSimulation (fun _ => .deleted) s r s'

end Routes

end SimulationKey
