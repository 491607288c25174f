import SimulationKey.Api.Service
import SimulationKey.Api.SimulationRepository
import SimulationKey.Kit.TwoRuns

/-!
# The stores, with the rows of every community

What the requests of all communities share, and the statements of one request on
it. A statement is scoped in one of three ways: by `with_community_scope`, by a
community passed on, or, once its row is known, by the row's id or keys.

* **what the database leaves open** — the order of the rows of an aggregate, and
  of the children that a relationship loads (`LoadedAs`);
* **one request** — its sessions stage changes to one simulation, the one it
  creates or deletes (`InRequest`); a commit makes them the stores'.
-/

namespace SimulationKey

open Kit

variable {F B : Type}

/-! ## Tables -/

/-- A row of `simulation`, with what refers to it. -/
structure StoredSimulation (F : Type) where
  simulation : SimulationModel
  keyResults : List (SimulationKeyResultModel F)

structure AllocationKeyRow (F : Type) where
  id : Nat
  idCommunity : Nat
  key : AllocationKeyModel F

structure SharingOperationRow where
  id : Nat
  idCommunity : Nat

structure MeterConsumptionRow (F : Type) where
  idCommunity : Nat
  idSharingOperation : Nat
  reading : MeterConsumption F

structure CrmTables (F : Type) where
  allocationKeys : List (AllocationKeyRow F)
  sharingOperations : List SharingOperationRow
  meterConsumption : List (MeterConsumptionRow F)

/-- The local database, the CRM database and the object store. -/
structure Stores (F B : Type) where
  simulations : List (StoredSimulation F)
  crm : CrmTables F
  auditLog : List AuditEntry
  sources : SourceKey → Option B
  results : ResultKey → Option (List UInt8)

/-- The row's objects are of its community. -/
structure SimulationModel.Owned (row : SimulationModel) : Prop where
  source : ∀ key, row.fileStorageKey = some key → key.community = row.idCommunity
  result : ∀ key, row.resultStorageKey = some key → key.community = row.idCommunity

/-- Stores as the service keeps them: the primary keys, and the objects of a row. -/
structure Stores.WellFormed (s : Stores F B) : Prop where
  simulations : (s.simulations.map (·.simulation.id)).Nodup
  allocationKeys : (s.crm.allocationKeys.map (·.id)).Nodup
  owned : ∀ run ∈ s.simulations, run.simulation.Owned

/-- The stores with their invariants. -/
structure Tenancy (F B : Type) extends Stores F B where
  wellFormed : toStores.WellFormed

/-! ## Queries -/

/-- `with_community_scope`, of rows with what refers to them. -/
def scopedSimulations (internalId : Option Nat) (rows : List (StoredSimulation F)) :
    List (StoredSimulation F) :=
  match internalId with
  | none => []
  | some c => rows.filter (·.simulation.idCommunity = c)

/-- `select(SimulationModel).where(id == …)`, scoped. -/
def findSimulation (internalId : Option Nat) (rows : List (StoredSimulation F)) (id : Nat) :
    Option (StoredSimulation F) :=
  (scopedSimulations internalId rows).find? (·.simulation.id = id)

/-- A key as its tree is loaded. -/
def AllocationKeyModel.LoadedAs (key loaded : AllocationKeyModel F) : Prop :=
  loaded.name = key.name ∧ loaded.description = key.description ∧
    ∃ iterations, iterations.Perm key.iterations ∧
      List.Forall₂ (fun it it' => it'.number = it.number ∧
        it'.energyAllocatedPercentage = it.energyAllocatedPercentage ∧
        it'.consumers.Perm it.consumers) iterations loaded.iterations

/-- A result tree as it is loaded. -/
def SimulationKeyResultModel.LoadedAs (tree loaded : SimulationKeyResultModel F) : Prop :=
  ∃ iterations, iterations.Perm tree.iterations ∧
    List.Forall₂ (fun it it' => ∃ consumers, consumers.Perm it.consumers ∧
      it' = { it with consumers := consumers }) iterations loaded.iterations ∧
    loaded = { tree with iterations := loaded.iterations }

namespace CrmTables

variable (crm : CrmTables F)

/-- `get_allocation_key`. -/
def findKey (idKey idCommunity : Nat) : Option (AllocationKeyRow F) :=
  crm.allocationKeys.find? fun row => row.id = idKey ∧ row.idCommunity = idCommunity

/-- `sharing_operation_exists`. -/
def hasSharingOperation (idCommunity idSharingOperation : Nat) : Bool :=
  crm.sharingOperations.any fun row =>
    row.id = idSharingOperation ∧ row.idCommunity = idCommunity

/-- The WHERE of both statements of `summarize`; `midnight` is the instant at which
a day begins. -/
def readingsIn (midnight : Nat → Int) (idCommunity idSharingOperation start stop : Nat) :
    List (MeterConsumption F) :=
  (crm.meterConsumption.filter fun row =>
    row.idCommunity = idCommunity ∧ row.idSharingOperation = idSharingOperation ∧
      midnight start ≤ row.reading.timestamp ∧ row.reading.timestamp < midnight stop).map
    (·.reading)

end CrmTables

/-! ## Changes of one simulation -/

inductive Change where
  | insert (row : SimulationModel)
  | update (values : RowValues)
  | delete

/-- A change of the simulation `self`. The database gives an inserted row its id. -/
def Change.apply (self : Nat) (rows : List (StoredSimulation F)) :
    Change → List (StoredSimulation F)
  | insert row =>
    if rows.any (·.simulation.id = self) then rows
    else rows ++ [⟨{ row with id := self }, []⟩]
  | update values => rows.map fun run =>
    if run.simulation.id = self then { run with simulation := run.simulation.set values } else run
  | delete => rows.filter (·.simulation.id ≠ self)

/-- The stores, and what a request's sessions have staged. -/
structure InRequest (F B : Type) where
  stores : Stores F B
  staged : SessionKind → List Change
  stagedAudit : List (SessionKind × AuditEntry)

def Stores.begin (s : Stores F B) : InRequest F B := ⟨s, fun _ => [], []⟩

namespace InRequest

variable (self : Nat) (s : InRequest F B)

/-- The rows that a session sees. -/
def visible (k : SessionKind) : List (StoredSimulation F) :=
  (s.staged k).foldl (Change.apply self) s.stores.simulations

/-- The simulation `self` as a session sees it. -/
def found (k : SessionKind) : Option (StoredSimulation F) :=
  (s.visible self k).find? (·.simulation.id = self)

def stage (k : SessionKind) (change : Change) : InRequest F B :=
  { s with staged := Function.update s.staged k (s.staged k ++ [change]) }

def commit (k : SessionKind) : InRequest F B :=
  { s with
    stores := { s.stores with simulations := s.visible self k }
    staged := Function.update s.staged k [] }

def rollback (k : SessionKind) : InRequest F B :=
  { s with staged := Function.update s.staged k [] }

def stageAudit (k : SessionKind) (entry : AuditEntry) : InRequest F B :=
  { s with stagedAudit := s.stagedAudit ++ [(k, entry)] }

def commitAudit (k : SessionKind) : InRequest F B :=
  { s with
    stores := { s.stores with
      auditLog := s.stores.auditLog ++ (s.stagedAudit.filter (·.1 = k)).map (·.2) }
    stagedAudit := s.stagedAudit.filter (·.1 ≠ k) }

def rollbackAudit (k : SessionKind) : InRequest F B :=
  { s with stagedAudit := s.stagedAudit.filter (·.1 ≠ k) }

def putSource (key : SourceKey) (content : B) : InRequest F B :=
  { s with stores := { s.stores with
    sources := Function.update s.stores.sources key (some content) } }

/-- `delete`: best effort, and nothing for no key. -/
def deleteObject : Option ObjectKey → InRequest F B
  | none => s
  | some (.source key) =>
    { s with stores := { s.stores with sources := Function.update s.stores.sources key none } }
  | some (.result key) =>
    { s with stores := { s.stores with results := Function.update s.stores.results key none } }

end InRequest

/-! ## The statements of a request -/

section Statements

variable [PyFloat F] (midnight : Nat → Int) (self : Nat)

/-- An operation that goes through, of a request that is about the simulation
`self`. Those that only the worker awaits are none of a request's. -/
def requestAnswer : (o : Op F B) → InRequest F B → Except Exn o.Resp → InRequest F B → Prop
  | .getRow k, s, r, s' => r = .ok ((s.found self k).map (·.simulation)) ∧ s' = s
  | .getSimulationRow k idCommunity, s, r, s' =>
    r = .ok ((findSimulation (some idCommunity) (s.visible self k) self).map (·.simulation)) ∧
      s' = s
  | .updateRow k values, s, r, s' =>
    if values.isEmpty then r = .ok () ∧ s' = s
    else
      if (s.found self k).isSome then r = .ok () ∧ s' = s.stage k (.update values)
      else r = .error (.other ("UPDATE statement on table 'simulation' expected to update " ++
        "1 row(s); 0 were matched.")) ∧ s' = s
  | .insertRow k row, s, r, s' =>
    if (s.found self k).isSome then
      r = .error (.other "duplicate key value violates unique constraint") ∧ s' = s
    else
      if row.fits then r = .ok self ∧ s' = s.stage k (.insert row)
      else r = .error (.other "value too long for type character varying") ∧ s' = s
  | .deleteRow k, s, r, s' => r = .ok () ∧ s' = s.stage k .delete
  | .commitLocal k, s, r, s' => r = .ok () ∧ s' = s.commit self k
  | .closeLocal k, s, r, s' => r = .ok () ∧ s' = s.rollback k
  | .getAllocationKey idKey idCommunity, s, r, s' =>
    s' = s ∧ match s.stores.crm.findKey idKey idCommunity with
      | none => r = .ok none
      | some row => ∃ loaded, row.key.LoadedAs loaded ∧ r = .ok (some loaded)
  | .sharingOperationExists idCommunity op, s, r, s' =>
    r = .ok (s.stores.crm.hasSharingOperation idCommunity op) ∧ s' = s
  | .summarize idCommunity op periodStart periodEnd, s, r, s' =>
    s' = s ∧ match sentBounds periodStart periodEnd with
      | .error text => r = .error (.other text)
      | .ok (start, stop) => ∃ readings,
        readings.Perm (s.stores.crm.readingsIn midnight idCommunity op start stop) ∧
          r = (summarize readings).mapError .other
  | .logAudit k entry, s, r, s' => r = .ok () ∧ s' = s.stageAudit k entry
  | .commitCrm k, s, r, s' => r = .ok () ∧ s' = s.commitAudit k
  | .closeCrm k, s, r, s' => r = .ok () ∧ s' = s.rollbackAudit k
  | .upload key content, s, r, s' => r = .ok () ∧ s' = s.putSource key content
  | .delete key, s, r, s' => r = .ok () ∧ s' = s.deleteObject key
  | .publish .., s, r, s' => r = .ok () ∧ s' = s
  | .readUpload content, s, r, s' => r = .ok content ∧ s' = s
  | _, _, _, _ => False

/-- An operation, as the outside has it. -/
def requestMay (o : Op F B) (choice : Choice) (s : InRequest F B) (r : Except Exn o.Resp)
    (s' : InRequest F B) : Prop :=
  match choice with
  | .ok => requestAnswer midnight self o s r s'
  | .fail e => o.raises e = true ∧ o.closes = false ∧ r = .error e ∧ s' = s
  | .lost e => o.raises e = true ∧ r = .error e ∧ ∃ r', requestAnswer midnight self o s r' s'
  | .swallowed => ∃ a, o.swallows = some a ∧ r = .ok a ∧ s' = s

end Statements

end SimulationKey
