import SimulationKey.Worker.Pipeline

/-!
# The local database, seen from one simulation

`shared/models/local_models.py` and `scripts/sql/schema.sql`: the simulation's
row, its result trees, and the transaction that holds the row's lock.

* **READ COMMITTED** — a statement sees the committed row, or the version its
  own session has staged (`LocalDb.visible`). One session at a time holds the
  lock (`LocalDb.tx`); its commit installs the version it staged.
* **ON DELETE CASCADE** — the trees go with the row (`LocalDb.commit`).
-/

namespace SimulationKey

open Kit

/-! ## The row -/

inductive SimulationStatus where
  | pending
  | success
  | failed
  deriving DecidableEq, Repr

inductive DataSource where
  | file
  | crm
  deriving DecidableEq, Repr

/-- The text of a `uuid4()`: hexadecimal digits in groups joined by hyphens. -/
def Uuid : Type := { s : String // '-' ∈ s.toList ∧ '/' ∉ s.toList }

instance : DecidableEq Uuid := inferInstanceAs (DecidableEq { _s : String // _ })

/-- The object key of an uploaded file. -/
structure SourceKey where
  community : Nat
  uuid : Uuid
  fileName : String
  deriving DecidableEq

/-- The object key of a result. -/
structure ResultKey where
  community : Nat
  simulation : Nat
  deriving DecidableEq, Repr

def SourceKey.text (k : SourceKey) : String :=
  "simulations/" ++ toString k.community ++ "/" ++ k.uuid.1 ++ "/" ++ k.fileName

def ResultKey.text (k : ResultKey) : String :=
  "simulations/" ++ toString k.community ++ "/" ++ toString k.simulation ++ "/" ++ "result.json"

/-- A row of `simulation`. Dates are ordinals, 1 for the first of January of year 1. -/
structure SimulationModel where
  id : Nat
  name : String
  idCommunity : Nat
  source : DataSource
  fileStorageKey : Option SourceKey
  fileName : Option String
  injectionName : Option String
  idSharingOperation : Option Nat
  periodStart : Option Nat
  periodEnd : Option Nat
  idKey : Nat
  keyName : String
  status : SimulationStatus
  errorMessage : Option String
  resultStorageKey : Option ResultKey
  dataWarnings : Option (List IncompleteMeter)
  deriving DecidableEq

/-- The values an UPDATE sets; a `none` column is not in its SET. -/
structure RowValues where
  status : Option SimulationStatus
  errorMessage : Option (Option String)
  resultStorageKey : Option (Option ResultKey)
  deriving DecidableEq

/-- The UPDATE sets no column. -/
def RowValues.isEmpty (v : RowValues) : Bool :=
  v.status.isNone && v.errorMessage.isNone && v.resultStorageKey.isNone

def SimulationModel.set (row : SimulationModel) (v : RowValues) : SimulationModel :=
  { row with
    status := v.status.getD row.status
    errorMessage := v.errorMessage.getD row.errorMessage
    resultStorageKey := v.resultStorageKey.getD row.resultStorageKey }

@[simp] theorem SimulationModel.set_status (row : SimulationModel) (v : RowValues) :
    (row.set v).status = v.status.getD row.status := rfl

@[simp] theorem SimulationModel.set_resultStorageKey (row : SimulationModel) (v : RowValues) :
    (row.set v).resultStorageKey = v.resultStorageKey.getD row.resultStorageKey := rfl

/-! ## The result tree -/

structure SimulationConsumerResultModel (F : Type) where
  name : String
  energyAllocatedPercentage : F
  consumptionTotal : F
  energyAllocatedTotal : F
  energyAllocatedConsumedTotal : F
  residualVolumeTotal : F
  surplusTotal : F
  idCommunity : Nat

structure SimulationIterationResultModel (F : Type) where
  number : Int
  energyAllocatedPercentage : F
  consumptionTotal : F
  energyAllocatedTotal : F
  energyAllocatedConsumedTotal : F
  residualVolumeTotal : F
  surplusTotal : F
  sharingRateTotal : F
  selfSufficiencyRateTotal : F
  idCommunity : Nat
  consumers : List (SimulationConsumerResultModel F)

structure SimulationKeyResultModel (F : Type) where
  name : String
  description : String
  consumptionTotal : F
  energyAllocatedTotal : F
  energyAllocatedConsumedTotal : F
  residualVolumeTotal : F
  surplusTotal : F
  selfSufficiencyRateTotal : F
  sharingRateTotal : F
  idSimulation : Nat
  idCommunity : Nat
  iterations : List (SimulationIterationResultModel F)

/-! ## Column limits -/

/-- A text fits a `VARCHAR(n)` column. -/
def fitsVarchar (n : Nat) (s : String) : Bool := s.length ≤ n

def SimulationModel.fits (row : SimulationModel) : Bool :=
  fitsVarchar 255 row.name && row.fileStorageKey.all (fun k => fitsVarchar 512 k.text) &&
    row.fileName.all (fitsVarchar 255) && row.injectionName.all (fitsVarchar 255) &&
    fitsVarchar 255 row.keyName

def SimulationKeyResultModel.fits {F : Type} (tree : SimulationKeyResultModel F) : Bool :=
  fitsVarchar 255 tree.name && fitsVarchar 255 tree.description &&
    tree.iterations.all fun it => it.consumers.all fun c => fitsVarchar 255 c.name

/-! ## Transactions -/

/-- A task's sessions: the request's, and the short-lived one a helper opens. -/
inductive SessionKind where
  | request
  | own
  deriving DecidableEq, Repr

structure SessionId where
  task : Nat
  kind : SessionKind
  deriving DecidableEq, Repr

/-- The open transaction on the row: who holds the lock, the row and the trees
its commit installs (`none` deletes the row), and whether a claim staged it. It
keeps the lock until its own session commits or is closed. -/
structure Tx (F : Type) where
  owner : SessionId
  row : Option SimulationModel
  trees : List (SimulationKeyResultModel F)
  claimed : Bool

/-- `created` says that the row's insertion has committed. `finisher` records
the task whose claim committed, and the status it set. -/
structure LocalDb (F : Type) where
  row : Option SimulationModel
  created : Bool
  trees : List (SimulationKeyResultModel F)
  tx : Option (Tx F)
  finisher : Option (Nat × SimulationStatus)

namespace LocalDb

variable {F : Type} (db : LocalDb F) (me : SessionId)

/-- The session's own transaction. -/
def own : Option (Tx F) := db.tx.filter (·.owner = me)

/-- The row as the session sees it. -/
def visible : Option SimulationModel :=
  match db.own me with
  | some tx => tx.row
  | none => db.row

/-- Another session holds the row's lock. -/
def locked : Bool := db.tx.any (·.owner ≠ me)

/-- The session holds the lock with a new version of the row. -/
def stage (row : Option SimulationModel) (claimed : Bool) : LocalDb F :=
  { db with
    tx := some
      { owner := me
        row := row
        trees := (db.own me).elim [] (·.trees)
        claimed := claimed } }

/-- The session's transaction with one more tree. -/
def addTree (tx : Tx F) (tree : SimulationKeyResultModel F) : LocalDb F :=
  { db with tx := some { tx with trees := tx.trees ++ [tree] } }

def commit : LocalDb F :=
  match db.own me with
  | some tx =>
    { row := tx.row
      created := true
      trees := if tx.row.isNone then [] else db.trees ++ tx.trees
      tx := none
      finisher :=
        if tx.claimed then tx.row.map fun row => (me.task, row.status) else db.finisher }
  | none => db

def rollback : LocalDb F :=
  match db.own me with
  | some _ => { db with tx := none }
  | none => db

/-! What a session's own transaction determines. -/

theorem own_eq_some {tx : Tx F} : db.own me = some tx ↔ db.tx = some tx ∧ tx.owner = me := by
  simp [own, Option.filter_eq_some_iff]

theorem own_eq_none : db.own me = none ↔ ∀ tx, db.tx = some tx → tx.owner ≠ me := by
  simp [own, Option.filter_eq_none_iff]

theorem own_rollback : (db.rollback me).own me = none := by
  unfold rollback
  cases hown : db.own me with
  | none => exact hown
  | some tx => rfl

theorem not_locked_iff : db.locked me = false ↔ ∀ tx, db.tx = some tx → tx.owner = me := by
  simp [locked, Option.any_eq_false]

end LocalDb

end SimulationKey
