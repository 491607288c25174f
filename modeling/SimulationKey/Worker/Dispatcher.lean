import SimulationKey.Worker.Persistence

/-!
# Handling a message

`worker/dispatcher.py`, from a message that decodes to a simulation id. Each
failure is classified by where it was raised: a transient one is NAK'd, any
other ends in a failed row and an ack.
-/

namespace SimulationKey

open Kit Kit.Prog

variable {F B L α : Type}

/-- The libraries that read an upload, and the API's count of its rows. `L` are
the labels of a parsed table. -/
structure Libraries (F B L : Type) where
  lower : String → String
  readCsv : B → Except String (DataFrame L F)
  readExcel : B → Except String (DataFrame L F)
  str : L → String
  size : B → Nat
  measure : B → String → Option (Nat × Nat)

section Dispatcher

variable [PyFloat F] (lib : Libraries F B L) (simulationId : Nat) (delivered : Option Nat)

/-! ## Parsing an upload -/

/-- `file_name.rsplit(".", 1)[-1]`. -/
def fileExtension (fileName : String) : String :=
  String.ofList (fileName.toList.rtakeWhile (· ≠ '.'))

/-- `parse_file`: the parser is chosen by extension. -/
def parseFile (content : B) (fileName : String) : Except Failure (DataFrame L F) :=
  let extension := lib.lower (fileExtension fileName)
  if extension = "csv" then (lib.readCsv content).mapError .unreadableFile
  else if extension = "xlsx" ∨ extension = "xls" then
    (lib.readExcel content).mapError .unreadableFile
  else .error (.unsupportedFile extension)

/-- `data_loading.load`. -/
def loadUpload (content : B) (fileName injectionName : String) (consumerNames : List String) :
    Except Failure (SimulationRawData F) := do
  let dataframe ← parseFile lib content fileName
  loadFile lib.str dataframe injectionName consumerNames

/-- The key as the run of a row takes it. -/
def keyInputOf (source : DataSource) (key : AllocationKeyModel F) : SimulationKeyInput F :=
  match source with
  | .crm => withTrimmedParticipants (fromCrmAllocationKey key)
  | .file => fromCrmAllocationKey key

/-! ## Classification -/

/-- `_MAX_SOLVER_CRASH_DELIVERIES`. -/
def maxSolverCrashDeliveries : Nat := 3

/-- `_MAX_DELIVERIES`. -/
def maxDeliveries : Nat := 10

/-- `_MAX_DELIVER`: the broker delivers a message no more often. -/
def maxDeliver : Nat := maxDeliveries + 1

/-- `except Exception as exc: raise _TransientError(…) from exc`. -/
def orTransient (what : String) (body : Act F B α) : Act F B α :=
  body.tryCatch fun e =>
    raise (if e.isException then .transientError (what ++ e.text) else e)

/-- A deterministic failure: the row is marked, and the handler is given the
upload to delete. -/
def settle (errorMessage : String) (storageKey : Option SourceKey) :
    Act F B (Except (Option SourceKey) α) := do
  saveFailure simulationId errorMessage
  pure (.error storageKey)

/-- `_after_solver_crash`: retry, up to a point. -/
def afterSolverCrash (text : String) (storageKey : Option SourceKey) :
    Act F B (Except (Option SourceKey) α) :=
  match delivered with
  | some n =>
    if n < maxSolverCrashDeliveries then
      raise (.transientError
        (s!"solver crashed on delivery {n} of {maxSolverCrashDeliveries}: " ++ text))
    else
      settle simulationId
        (s!"solver_crashed (likely out of memory) on delivery {n}: " ++ text) storageKey
  | none =>
    settle simulationId ("solver_crashed (likely out of memory) on delivery unknown: " ++ text)
      storageKey

/-! ## The steps of a run -/

/-- `_snapshot_simulation`. -/
def snapshotSimulation : Act F B (Option SimulationModel) :=
  withLocalSession .own (await (.getRow .own))

/-- `_read_crm_key`. -/
def readCrmKey (idKey idCommunity : Nat) : Act F B (Option (AllocationKeyModel F)) :=
  withCrmSession .own (await (.getAllocationKey idKey idCommunity))

/-- The download of an upload; a missing object settles the run. -/
def downloadSource (storageKey : SourceKey) : Act F B (Except (Option SourceKey) B) :=
  (do
    let content ← await (.download storageKey)
    pure (Except.ok content)).tryCatch fun e =>
      match e with
      | .objectNotFound _ => settle simulationId "storage_object_missing" none
      | .transientStorage text => raise (.transientError ("storage download: " ++ text))
      | e => raise e

/-- `_load_from_file`. -/
def loadFromFile (snapshot : SimulationModel) (consumerNames : List String) :
    Act F B (Except (Option SourceKey) (SimulationRawData F)) :=
  match snapshot.fileStorageKey, snapshot.fileName with
  | some storageKey, some fileName => do
    match ← downloadSource simulationId storageKey with
    | .error terminal => pure (.error terminal)
    | .ok content =>
      match loadUpload lib content fileName (snapshot.injectionName.getD "") consumerNames with
      | .error failure => settle simulationId failure.message (some storageKey)
      | .ok raw => pure (.ok raw)
  | _, _ => settle simulationId "file_source_incomplete" none

/-- The pre-flight of a period, and its rows unless it is rejected. -/
def readPeriod (idCommunity idSharingOperation periodStart periodEnd : Nat)
    (consumerNames : List String) (iterations : Nat) :
    Act F B (Preflight F × List (ConsumptionRow F)) :=
  withCrmSession .own do
    let summary ← await (.summarize idCommunity idSharingOperation periodStart periodEnd)
    let preflight := evaluate summary consumerNames iterations
    if preflight.ok then
      let rows ← await (.fetchRows idCommunity idSharingOperation periodStart periodEnd)
      pure (preflight, rows)
    else pure (preflight, [])

/-- `_load_from_crm`. -/
def loadFromCrm (snapshot : SimulationModel) (consumerNames : List String) (iterations : Nat) :
    Act F B (Except (Option SourceKey) (SimulationRawData F)) :=
  match snapshot.idSharingOperation, snapshot.periodStart, snapshot.periodEnd with
  | some idSharingOperation, some periodStart, some periodEnd => do
    let period ← orTransient "crm read: "
      (readPeriod snapshot.idCommunity idSharingOperation periodStart periodEnd consumerNames
        iterations)
    match loadRows period.1 period.2 with
    | .error failure => settle simulationId failure.message none
    | .ok raw => pure (.ok raw)
  | _, _, _ => settle simulationId "crm_source_incomplete" none

def loadSource (snapshot : SimulationModel) (keyInput : SimulationKeyInput F) :
    Act F B (Except (Option SourceKey) (SimulationRawData F)) :=
  match snapshot.source with
  | .crm =>
    loadFromCrm simulationId snapshot (consumerNamesOf keyInput) keyInput.iterations.length
  | .file => loadFromFile lib simulationId snapshot (consumerNamesOf keyInput)

/-- `_run_simulation`: a broken pool is a solver crash. -/
def runSolver (keyInput : SimulationKeyInput F) (raw : SimulationRawData F) :
    Act F B (KeySimResult F × Nat) :=
  (await (.runSimulation keyInput raw)).tryCatch fun e =>
    match e with
    | .brokenExecutor text => raise (.solverCrash text)
    | e => raise e

/-- The solve, with its failures settled. -/
def solveRun (snapshot : SimulationModel) (keyInput : SimulationKeyInput F)
    (raw : SimulationRawData F) : Act F B (Except (Option SourceKey) (KeySimResult F × Nat)) :=
  (do
    let solved ← runSolver keyInput raw
    pure (Except.ok solved)).tryCatch fun e =>
      match e with
      | .solverCrash text =>
        afterSolverCrash simulationId delivered text snapshot.fileStorageKey
      | e =>
        if e.isException then
          settle simulationId ("simulation_failed: " ++ e.text) snapshot.fileStorageKey
        else raise e

/-- The persisting of a solved run, whose file is removed on every exit. -/
def persistRun (solved : KeySimResult F × Nat) : Act F B Unit :=
  (orTransient "persist failed: " (saveSuccess simulationId solved.1 solved.2)).ensuring
    (await (.remove solved.2))

/-- Steps 3 to 6, for a key that was found: the upload to delete. -/
def runKey (snapshot : SimulationModel) (key : AllocationKeyModel F) :
    Act F B (Option SourceKey) := do
  let keyInput := keyInputOf snapshot.source key
  match ← loadSource lib simulationId snapshot keyInput with
  | .error terminal => pure terminal
  | .ok raw =>
    match tooLarge raw.C.rows raw.C.cols keyInput.iterations.length with
    | some oversize => do
      saveFailure simulationId ("simulation_too_large: " ++ oversize)
      pure snapshot.fileStorageKey
    | none =>
      match ← solveRun simulationId delivered snapshot keyInput raw with
      | .error terminal => pure terminal
      | .ok solved => do
        persistRun simulationId solved
        pure snapshot.fileStorageKey

/-- `_process`: the upload that a terminal outcome leaves to delete. -/
def process : Act F B (Option SourceKey) := do
  match ← snapshotSimulation with
  | none => pure none
  | some snapshot =>
    if snapshot.status ≠ .pending then pure snapshot.fileStorageKey
    else if delivered.any (maxDeliveries ≤ ·) then do
      saveFailure simulationId (s!"delivery_limit_reached: delivery {delivered.getD 0}, the " ++
        "earlier ones ended without a result (transient failures, or the worker stopped mid-run)")
      pure snapshot.fileStorageKey
    else
      let key ← orTransient "crm read: " (readCrmKey snapshot.idKey snapshot.idCommunity)
      match key with
      | none => do
        saveFailure simulationId s!"key_not_found: {snapshot.idKey}"
        pure snapshot.fileStorageKey
      | some key => runKey lib simulationId delivered snapshot key

/-- `_handle_message`. The heartbeat stops before the reply. -/
def handleMessage : Act F B Unit :=
  ((process lib simulationId delivered).ensuring (await .stopHeartbeat)).andThen fun
    | .ok storageKey => do
      await .ack
      match storageKey with
      | none => pure ()
      | some key => await (.delete (some (.source key)))
    | .error (.transientError _) => await .nak
    | .error e =>
      if e.isException then do
        saveFailure simulationId "unhandled_worker_error"
        await .ack
      else raise e

end Dispatcher

end SimulationKey
