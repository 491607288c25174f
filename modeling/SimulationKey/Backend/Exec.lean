import SimulationKey.Backend.World
import SimulationKey.Kit.Interleaving

/-!
# What the code awaits

The operations of the API and the worker on what they share, and their
execution by a task. `answer` is an operation that goes through, `none` while
it waits for the row's lock; `exec` adds the faults of the outside.

* **failures** — an operation may raise without effect, or after its effect (a
  lost acknowledgement, a late timeout, a cancellation); the audit log, the
  event bus and the deletion of an object may drop theirs without a word.
* **the row** — `DbMove` says what an operation can do to the local database.
-/

namespace SimulationKey

open Kit

/-! ## Exceptions -/

/-- The errors a request is answered with. -/
inductive ApiError where
  | simulationNotFound
  | keyNotFound
  | invalidFile
  | storageUploadFailed
  | startSimulation
  | fileTooLarge
  | invalidPeriod
  | sharingOperationNotFound
  | preflight (e : PreflightError)
  deriving DecidableEq, Repr

namespace ApiError

def code : ApiError → Nat
  | simulationNotFound => 2102
  | keyNotFound => 2103
  | invalidFile => 2104
  | storageUploadFailed => 2105
  | startSimulation => 2106
  | fileTooLarge => 2110
  | invalidPeriod => 2111
  | sharingOperationNotFound => 2112
  | preflight e => e.code

def key : ApiError → String
  | simulationNotFound => "ERRORS.SIMULATION.SIMULATION_NOT_FOUND"
  | keyNotFound => "ERRORS.SIMULATION.KEY_NOT_FOUND"
  | invalidFile => "ERRORS.SIMULATION.INVALID_FILE"
  | storageUploadFailed => "ERRORS.SIMULATION.STORAGE_UPLOAD_FAILED"
  | startSimulation => "ERRORS.SIMULATION.START_SIMULATION"
  | fileTooLarge => "ERRORS.SIMULATION.FILE_TOO_LARGE"
  | invalidPeriod => "ERRORS.SIMULATION.INVALID_PERIOD"
  | sharingOperationNotFound => "ERRORS.SIMULATION.SHARING_OPERATION_NOT_FOUND"
  | preflight e => e.key

end ApiError

/-- What the code can raise. A cancellation is no `Exception`: only `finally`
sees it. -/
inductive Exn where
  | cancelled
  | transientError (text : String)
  | solverCrash (text : String)
  | brokenExecutor (text : String)
  | objectNotFound (text : String)
  | transientStorage (text : String)
  | simulationInput (e : SimulationInputError)
  | errorException (error : ApiError) (statusCode : Nat)
  | other (text : String)
  deriving DecidableEq, Repr

namespace Exn

/-- `except Exception` catches it. -/
def isException : Exn → Bool
  | cancelled => false
  | _ => true

/-- `str(exc)`. -/
def text : Exn → String
  | cancelled => ""
  | transientError text | solverCrash text | brokenExecutor text | objectNotFound text
  | transientStorage text | other text => text
  | simulationInput e => e.message
  | errorException error _ => s!"Error {error.code}: {error.key}"

end Exn

/-! ## Reading an object -/

/-- What aiobotocore raises while an object is read: a refusal of the store, or an error
of the transport. `_read_errors` lists those that are `known`: timeouts and botocore's own
connection errors. `ConnectionClosedError`, and what aiohttp raises while the body is
read, are not among them. -/
inductive StorageError where
  | client (errorCode : String) (status : Option Nat) (text : String)
  | transport (known : Bool) (text : String)
  deriving DecidableEq, Repr

/-- `_NOT_FOUND_CODES`. -/
def notFoundCodes : List String := ["NoSuchKey", "NoSuchBucket", "404"]

/-- A status of the store's own failures. -/
def isServerError (status : Option Nat) : Bool := status.any fun n => 500 ≤ n && n < 600

/-- `_read_errors`: the exception a reader of the object at `key` sees. -/
def readErrors (key : String) : StorageError → Exn
  | .client errorCode status text =>
    if errorCode ∈ notFoundCodes ∨ status = some 404 then .objectNotFound key
    else if isServerError status then
      .transientStorage (s!"storage {status.getD 0} for " ++ key)
    else .other text
  | .transport known text =>
    if known then .transientStorage ("storage transport: " ++ text) else .other text

/-- An error that another attempt may not meet: the store's own failure, or one of the
transport. -/
def StorageError.retryable : StorageError → Bool
  | .client errorCode status _ => errorCode ∉ notFoundCodes && isServerError status
  | .transport .. => true

/-! ## Operations -/

inductive Op (F B : Type) where
  | getRow (s : SessionKind)
  | getSimulationRow (s : SessionKind) (idCommunity : Nat)
  | claim (s : SessionKind) (values : RowValues)
  | updateRow (s : SessionKind) (values : RowValues)
  | insertRow (s : SessionKind) (row : SimulationModel)
  | deleteRow (s : SessionKind)
  | insertTree (s : SessionKind) (tree : SimulationKeyResultModel F)
  | commitLocal (s : SessionKind)
  | closeLocal (s : SessionKind)
  | getAllocationKey (idKey idCommunity : Nat)
  | sharingOperationExists (idCommunity idSharingOperation : Nat)
  | summarize (idCommunity idSharingOperation periodStart periodEnd : Nat)
  | fetchRows (idCommunity idSharingOperation periodStart periodEnd : Nat)
  | logAudit (s : SessionKind) (entry : AuditEntry)
  | commitCrm (s : SessionKind)
  | closeCrm (s : SessionKind)
  | upload (key : SourceKey) (content : B)
  | uploadFile (key : ResultKey) (path : Nat)
  | download (key : SourceKey)
  | delete (key : Option ObjectKey)
  | publish (subject : String) (event : Event)
  | ack
  | nak
  | stopHeartbeat
  | emit (hint : SimulationStatus)
  | runSimulation (key : SimulationKeyInput F) (raw : SimulationRawData F)
  | remove (path : Nat)
  | readUpload (content : B)

variable {F B : Type}

/-- What an operation answers. -/
@[reducible] def Op.Resp : Op F B → Type
  | getRow _ | getSimulationRow .. => Option SimulationModel
  | claim .. => Nat
  | insertRow .. => Nat
  | getAllocationKey .. => Option (AllocationKeyModel F)
  | sharingOperationExists .. => Bool
  | summarize .. => CrmDataSummary F
  | fetchRows .. => List (ConsumptionRow F)
  | download _ | readUpload _ => B
  | runSimulation .. => KeySimResult F × Nat
  | updateRow .. | deleteRow _ | insertTree .. | commitLocal _ | closeLocal _ | logAudit ..
  | commitCrm _ | closeCrm _ | upload .. | uploadFile .. | delete _ | publish .. | ack | nak
  | stopHeartbeat | emit _ | remove _ => Unit

/-- A program of the API or the worker. -/
abbrev Act (F B α : Type) : Type := Prog (Op F B) Op.Resp Exn α

abbrev await (o : Op F B) : Act F B o.Resp := Prog.perform o

/-- What an operation can raise on its own account. Best-effort operations
swallow every `Exception`, and removing a file is not awaited. -/
def Op.raises : Op F B → Exn → Bool
  | logAudit .., e | emit _, e | delete _, e => !e.isException
  | remove _, _ => false
  | runSimulation .., .brokenExecutor _ => true
  | download _, .objectNotFound _ | download _, .transientStorage _ => true
  | _, .cancelled | _, .other _ => true
  | _, _ => false

/-- Closing a session ends its transaction even when it raises. -/
def Op.closes : Op F B → Bool
  | closeLocal _ | closeCrm _ => true
  | _ => false

/-- Operations that may do nothing and not say so. -/
def Op.swallows : (o : Op F B) → Option o.Resp
  | logAudit .. => some ()
  | emit _ => some ()
  | delete _ => some ()
  | _ => none

/-! ## Execution -/

section Execution

variable [PyFloat F]

/-- A statement that selects the row by its id: `none` while another session
holds the lock of a committed row. -/
def LocalDb.onRow {α : Type} (db : LocalDb F) (me : SessionId)
    (act : Option SimulationModel → Except Exn α × LocalDb F) :
    Option (Except Exn α × LocalDb F) :=
  if db.locked me then
    match db.row with
    | some _ => none
    | none => some (act none)
  else some (act (db.visible me))

/-- `UPDATE simulation SET … WHERE id = … AND status = PENDING`, with its row
count. It waits only for a row that its condition selects. -/
def LocalDb.claim (db : LocalDb F) (me : SessionId) (values : RowValues) :
    Option (Except Exn Nat × LocalDb F) :=
  if db.locked me then
    match db.row with
    | some row => if row.status = .pending then none else some (.ok 0, db)
    | none => some (.ok 0, db)
  else
    match db.visible me with
    | some row =>
      if row.status = .pending then some (.ok 1, db.stage me (some (row.set values)) true)
      else some (.ok 0, db)
    | none => some (.ok 0, db)

/-- A flush of changed attributes: an UPDATE by id, unless nothing changed. -/
def LocalDb.update (db : LocalDb F) (me : SessionId) (values : RowValues) :
    Option (Except Exn Unit × LocalDb F) :=
  if values.isEmpty then some (.ok (), db)
  else
    db.onRow me fun
      | some row => (.ok (), db.stage me (some (row.set values)) false)
      | none => (.error (.other ("UPDATE statement on table 'simulation' expected to update " ++
          "1 row(s); 0 were matched.")), db)

/-- The row's insertion. Its id is new: it has never been committed. -/
def LocalDb.insert (db : LocalDb F) (me : SessionId) (row : SimulationModel) :
    Option (Except Exn Nat × LocalDb F) :=
  if db.created || db.tx.isSome then
    some (.error (.other "duplicate key value violates unique constraint"), db)
  else if row.fits then some (.ok row.id, db.stage me (some row) false)
  else some (.error (.other "value too long for type character varying"), db)

/-- A deletion by id; a row already gone is only warned about. -/
def LocalDb.deleteRow (db : LocalDb F) (me : SessionId) : Option (Except Exn Unit × LocalDb F) :=
  db.onRow me fun
    | some _ => (.ok (), db.stage me none false)
    | none => (.ok (), db)

/-- The insertion of a result tree, after the session's claim of the row it
refers to. -/
def LocalDb.insertTree (db : LocalDb F) (me : SessionId) (tree : SimulationKeyResultModel F) :
    Option (Except Exn Unit × LocalDb F) :=
  match db.own me with
  | some tx =>
    if tree.fits then some (.ok (), db.addTree tx tree)
    else some (.error (.other "value too long for type character varying(255)"), db)
  | none => some (.error (.other "insert violates foreign key constraint"), db)

/-- An operation that goes through. -/
def answer (t : Nat) : (o : Op F B) → World F B → Option (Except Exn o.Resp × World F B)
  | .getRow s, w => some (.ok (w.db.visible ⟨t, s⟩), w)
  | .getSimulationRow s idCommunity, w =>
    some (.ok ((w.db.visible ⟨t, s⟩).filter (·.idCommunity = idCommunity)), w)
  | .claim s values, w => (w.db.claim ⟨t, s⟩ values).map fun x => (x.1, { w with db := x.2 })
  | .updateRow s values, w => (w.db.update ⟨t, s⟩ values).map fun x => (x.1, { w with db := x.2 })
  | .insertRow s row, w => (w.db.insert ⟨t, s⟩ row).map fun x => (x.1, { w with db := x.2 })
  | .deleteRow s, w => (w.db.deleteRow ⟨t, s⟩).map fun x => (x.1, { w with db := x.2 })
  | .insertTree s tree, w => (w.db.insertTree ⟨t, s⟩ tree).map fun x => (x.1, { w with db := x.2 })
  | .commitLocal s, w => some (.ok (), { w with db := w.db.commit ⟨t, s⟩ })
  | .closeLocal s, w => some (.ok (), { w with db := w.db.rollback ⟨t, s⟩ })
  | .getAllocationKey idKey idCommunity, w => some (.ok (w.crm.allocationKeys idKey idCommunity), w)
  | .sharingOperationExists idCommunity op, w =>
    some (.ok (w.crm.sharingOperations idCommunity op), w)
  | .summarize idCommunity op periodStart periodEnd, w =>
    match sentBounds periodStart periodEnd with
    | .error text => some (.error (.other text), w)
    | .ok (start, stop) =>
      some ((summarize (w.crm.meterConsumption idCommunity op start stop)).mapError .other, w)
  | .fetchRows idCommunity op periodStart periodEnd, w =>
    match sentBounds periodStart periodEnd with
    | .error text => some (.error (.other text), w)
    | .ok (start, stop) =>
      some (.ok (fetchRows (w.crm.meterConsumption idCommunity op start stop)), w)
  | .logAudit s entry, w => some (.ok (), { w with audit := w.audit.stage ⟨t, s⟩ entry })
  | .commitCrm s, w => some (.ok (), { w with audit := w.audit.commit ⟨t, s⟩ })
  | .closeCrm s, w => some (.ok (), { w with audit := w.audit.rollback ⟨t, s⟩ })
  | .upload key content, w =>
    some (.ok (), { w with storage := w.storage.putSource key content })
  | .uploadFile key path, w =>
    match w.files.series path with
    | none => some (.error (.other "[Errno 2] No such file or directory"), w)
    | some series =>
      some (.ok (), { w with storage := w.storage.putResult key series })
  | .download key, w =>
    match w.storage.sources key with
    | none => some (.error (.objectNotFound key.text), w)
    | some content => some (.ok content, w)
  | .delete key, w => some (.ok (), { w with storage := w.storage.delete key })
  | .publish subject event, w =>
    some (.ok (), { w with nats := w.nats.publish subject event })
  | .ack, w =>
    some (.ok (), { w with nats := { w.nats with replies := w.nats.replies ++ [(t, .ack)] } })
  | .nak, w =>
    some (.ok (), { w with nats := { w.nats with replies := w.nats.replies ++ [(t, .nak)] } })
  | .stopHeartbeat, w => some (.ok (), w)
  | .emit hint, w => some (.ok (), { w with finished := w.finished ++ [hint] })
  | .runSimulation key raw, w =>
    match runSimulation key raw.C raw.VA raw.consumerNames with
    | .error e => some (.error (.simulationInput e), w)
    | .ok result =>
      some (.ok (withoutSeries result, w.files.next), { w with files :=
        { series := Function.update w.files.series w.files.next (some result)
          next := w.files.next + 1 } })
  | .remove path, w =>
    some (.ok (), { w with files :=
      { w.files with series := Function.update w.files.series path none } })
  | .readUpload content, w => some (.ok content, w)

/-- What the outside makes of an operation. -/
inductive Choice where
  | ok
  | fail (e : Exn)
  | lost (e : Exn)
  | swallowed
  deriving DecidableEq, Repr

/-- It raises, though it has had its effect. -/
def Choice.late : Choice → Bool
  | .lost _ => true
  | _ => false

/-- An operation of task `t`: it goes through, raises without effect or after
it, or is dropped. -/
def exec (choice : Choice) (t : Nat) (o : Op F B) (w : World F B) :
    Option (Except Exn o.Resp × World F B) :=
  match choice with
  | .ok => answer t o w
  | .fail e => if o.raises e && !o.closes then some (.error e, w) else none
  | .lost e => if o.raises e then (answer t o w).map fun x => (.error e, x.2) else none
  | .swallowed => o.swallows.map fun a => (.ok a, w)

end Execution

end SimulationKey
