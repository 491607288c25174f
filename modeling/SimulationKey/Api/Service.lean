import SimulationKey.Worker.Dispatcher

/-!
# Starting and deleting a simulation

`api/simulation/service.py`, with the sessions a request holds
(`api/simulation/routes.py`). Both starts commit the row before they publish;
when the publish raises, the row is marked FAILED in a session of its own.
-/

namespace SimulationKey

open Kit Kit.Prog Kit.Text

variable {F B L α : Type}

/-! ## Requests -/

structure UploadFile (B : Type) where
  content : B
  filename : Option String

structure SimulateRequest where
  name : String
  idKey : Nat
  injectionName : String

structure SimulateFromCrmRequest where
  name : String
  idKey : Nat
  idSharingOperation : Nat
  periodStart : Nat
  periodEnd : Nat

structure SimulateResponse where
  id : Nat
  status : SimulationStatus
  deriving DecidableEq, Repr

/-- `UPLOAD_MAX_BODY_BYTES`. -/
def uploadMaxBodyBytes : Nat := 50 * 1024 * 1024

/-- A request's two sessions, closed when it ends; nothing commits the CRM's. -/
def withRequestSessions (body : Act F B α) : Act F B α :=
  withLocalSession .request (withCrmSession .request body)

def reject (error : ApiError) (statusCode : Nat) : Act F B α :=
  raise (.errorException error statusCode)

/-- `except Exception: …; raise`. -/
def onException (body : Act F B α) (handler : Exn → Act F B α) : Act F B α :=
  body.tryCatch fun e => if e.isException then handler e else raise e

/-! ## A failed publish -/

/-- The attributes that differ from the loaded row. -/
def changedBy (row : SimulationModel) (status : SimulationStatus) (errorMessage : String) :
    RowValues :=
  { status := if row.status = status then none else some status
    errorMessage :=
      if row.errorMessage = some errorMessage then none else some (some errorMessage)
    resultStorageKey := none }

/-- `_mark_failed_to_queue`: the row is loaded, changed and flushed by its id. -/
def markFailedToQueue (simulationId : Nat) (reason : String) : Act F B Unit := do
  let marked ← withLocalSession .own do
    match ← await (.getRow .own) with
    | none => pure none
    | some row =>
      await (.updateRow .own (changedBy row .failed (clip 2000 ("failed_to_queue: " ++ reason))))
      await (.commitLocal .own)
      pure (some row.idCommunity)
  match marked with
  | none => pure ()
  | some idCommunity =>
    withCrmSession .own do
      await (.logAudit .own
        { payload := .queueFailed (clip 500 reason)
          entityId := simulationId
          idCommunity := idCommunity })
      await (.commitCrm .own)

/-- The publish of the run event; `cleanup` follows the mark when it raises. -/
def publishOrMark (simulationId : Nat) (cleanup : Act F B Unit) : Act F B Unit :=
  onException (await (.publish simulationSubject (simulationRequested simulationId))) fun e => do
    markFailedToQueue simulationId e.text
    cleanup
    reject .startSimulation 500

/-- The insertion of a PENDING row, committed. -/
def createSimulation (model : SimulationModel) : Act F B Nat := do
  let simulationId ← await (.insertRow .request model)
  await (.commitLocal .request)
  pure simulationId

section Service

variable [PyFloat F] (lib : Libraries F B L)

/-! ## The file path -/

/-- `_read_within_cap`, and the refusal of an empty file. -/
def readWithinCap (file : UploadFile B) : Act F B B := do
  let content ← await (.readUpload file.content)
  if lib.size content > uploadMaxBodyBytes then reject .fileTooLarge 413
  else if lib.size content = 0 then reject .invalidFile 422
  else pure content

/-- The run an upload asks for is over the limit, as far as it can be counted. -/
def uploadTooLarge (key : AllocationKeyModel F) (content : B) (fileName : String) : Bool :=
  match lib.measure content fileName with
  | none => false
  | some shape =>
    let keyInput := fromCrmAllocationKey key
    (tooLarge (consumerNamesOf keyInput).length shape.2 keyInput.iterations.length).isSome

/-- `file.filename or "uploaded-file"`. -/
def uploadName (file : UploadFile B) : String :=
  match file.filename with
  | none => "uploaded-file"
  | some name => if name = "" then "uploaded-file" else name

def fileModel (simulationId : Nat) (req : SimulateRequest) (community : Nat)
    (key : AllocationKeyModel F) (storageKey : SourceKey) : SimulationModel :=
  { id := simulationId
    name := req.name
    idCommunity := community
    source := .file
    fileStorageKey := some storageKey
    fileName := some storageKey.fileName
    injectionName := some req.injectionName
    idSharingOperation := none
    periodStart := none
    periodEnd := none
    idKey := req.idKey
    keyName := key.name
    status := .pending
    errorMessage := none
    resultStorageKey := none
    dataWarnings := none }

/-- `start_simulation`. The insertion gives the row `newId`, and the upload's key
is drawn as `uuid`. -/
def startSimulation (newId : Nat) (uuid : Uuid) (req : SimulateRequest) (file : UploadFile B)
    (community : Nat) : Act F B SimulateResponse := do
  match ← await (.getAllocationKey req.idKey community) with
  | none => reject .keyNotFound 404
  | some key =>
    let content ← readWithinCap lib file
    if uploadTooLarge lib key content (uploadName file) then
      reject (.preflight .simulationTooLarge) 422
    else
      let storageKey : SourceKey :=
        { community := community, uuid := uuid, fileName := uploadName file }
      onException (await (.upload storageKey content)) fun _ => reject .storageUploadFailed 502
      let simulationId ← onException
        (createSimulation (fileModel newId req community key storageKey)) fun e => do
          await (.delete (some (.source storageKey)))
          raise e
      await (.logAudit .request
        { payload := .created req.name req.idKey key.name (uploadName file) req.injectionName
          entityId := simulationId
          idCommunity := community })
      publishOrMark simulationId (await (.delete (some (.source storageKey))))
      pure { id := simulationId, status := .pending }

/-! ## The CRM path -/

/-- `preview_crm_data`. -/
def previewCrmData (idKey idSharingOperation periodStart periodEnd community : Nat) :
    Act F B (Preflight F) := do
  if periodStart > periodEnd then reject .invalidPeriod 422
  else
    match ← await (.getAllocationKey idKey community) with
    | none => reject .keyNotFound 404
    | some key =>
      if ← await (.sharingOperationExists community idSharingOperation) then
        let summary ← await (.summarize community idSharingOperation periodStart periodEnd)
        let keyInput := fromCrmAllocationKey key
        pure (evaluate summary (consumerNamesOf keyInput) keyInput.iterations.length)
      else reject .sharingOperationNotFound 404

def crmModel (simulationId : Nat) (req : SimulateFromCrmRequest) (community : Nat)
    (key : AllocationKeyModel F) (preflight : Preflight F) : SimulationModel :=
  { id := simulationId
    name := req.name
    idCommunity := community
    source := .crm
    fileStorageKey := none
    fileName := none
    injectionName := none
    idSharingOperation := some req.idSharingOperation
    periodStart := some req.periodStart
    periodEnd := some req.periodEnd
    idKey := req.idKey
    keyName := key.name
    status := .pending
    errorMessage := none
    resultStorageKey := none
    dataWarnings := preflight.warnings }

/-- `start_simulation_from_crm`. -/
def startSimulationFromCrm (newId : Nat) (req : SimulateFromCrmRequest) (community : Nat) :
    Act F B SimulateResponse := do
  match ← await (.getAllocationKey req.idKey community) with
  | none => reject .keyNotFound 404
  | some key =>
    let preflight ← previewCrmData req.idKey req.idSharingOperation req.periodStart req.periodEnd
      community
    match preflight.blockers with
    | first :: _ => reject (.preflight first.error) 422
    | [] =>
      let simulationId ← createSimulation (crmModel newId req community key preflight)
      await (.logAudit .request
        { payload := .createdFromCrm req.name req.idKey key.name req.idSharingOperation
            req.periodStart req.periodEnd
          entityId := simulationId
          idCommunity := community })
      publishOrMark simulationId (pure ())
      pure { id := simulationId, status := .pending }

end Service

/-! ## Deletion -/

/-- `delete_simulation`. -/
def deleteSimulation (idSimulation community : Nat) : Act F B Unit := do
  match ← await (.getSimulationRow .request community) with
  | none => reject .simulationNotFound 404
  | some simulation =>
    await (.deleteRow .request)
    await (.commitLocal .request)
    await (.delete (simulation.fileStorageKey.map .source))
    match simulation.resultStorageKey with
    | none => pure ()
    | some key => await (.delete (some (.result key)))
    await (.logAudit .request
      { payload := .deleted simulation.status
        entityId := idSimulation
        idCommunity := community })

end SimulationKey
