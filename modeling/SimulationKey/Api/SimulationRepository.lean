import SimulationKey.Backend.LocalDb
import SimulationKey.Kit.Paging

/-!
# Listing a community's simulations

`api/simulation/repository.py` and `get_simulations` of
`api/simulation/service.py`, over the rows of every community. What the database
decides is a parameter: its pattern match, its collation, and among rows that the
ORDER BY leaves tied, the order of each answer.
-/

namespace SimulationKey

open Kit Kit.Paging Kit.Text

/-! ## The database's part -/

/-- `ILIKE`, and a collation: names compare as their keys do. -/
structure Collation where
  ilike : String → String → Bool
  Key : Type
  order : LinearOrder Key
  key : String → Key

instance (db : Collation) : LinearOrder db.Key := db.order

def SimulationStatus.number : SimulationStatus → Int
  | .pending => 0
  | .success => 1
  | .failed => 2

/-! ## The query -/

/-- A request's query parameters, `dict(request.query_params)`. -/
abbrev QueryParams := List (String × String)

/-- `query_param.get(name)`, `none` for a missing or an empty one. -/
def QueryParams.truthy (query : QueryParams) (name : String) : Option String :=
  match query.find? (·.1 = name) with
  | none => none
  | some (_, value) => if value = "" then none else some value

/-- `with_community_scope`: without a resolved community, no row. -/
def withCommunityScope (internalId : Option Nat) (rows : List SimulationModel) :
    List SimulationModel :=
  match internalId with
  | none => []
  | some c => rows.filter (·.idCommunity = c)

inductive ListError where
  | invalidStatus
  | negativeLimit
  | negativeOffset
  | divisionByZero
  deriving DecidableEq, Repr

inductive SortColumn where
  | id
  | name
  | status
  deriving DecidableEq, Repr

/-- A column's comparison. -/
def SortColumn.le (db : Collation) : SortColumn → SimulationModel → SimulationModel → Bool
  | id, a, b => a.id ≤ b.id
  | name, a, b => db.key a.name ≤ db.key b.name
  | status, a, b => a.status.number ≤ b.status.number

structure SortClause where
  column : SortColumn
  descending : Bool
  deriving DecidableEq, Repr

def SortClause.le (db : Collation) (clause : SortClause) (a b : SimulationModel) : Bool :=
  if clause.descending then clause.column.le db b a else clause.column.le db a b

/-- `str.lower()`, as far as comparing with letters of ASCII goes. -/
def lower (s : String) : String := String.ofList (s.toList.map Char.toLower)

/-- The clause of one `sort_…` parameter; any other text than the two is ignored. -/
def sortClause (query : QueryParams) (param : String) (column : SortColumn) : List SortClause :=
  match query.truthy param with
  | none => []
  | some direction =>
    if lower direction = "desc" then [⟨column, true⟩]
    else if lower direction = "asc" then [⟨column, false⟩]
    else []

/-- The ORDER BY, in the order of `sort_map`. -/
def sortClauses (query : QueryParams) : List SortClause :=
  let clauses := sortClause query "sort_id" .id ++ sortClause query "sort_name" .name ++
    sortClause query "sort_status" .status
  if clauses.isEmpty then [⟨.id, true⟩] else clauses

section Listing

variable (db : Collation) (internalId : Option Nat) (rows : List SimulationModel)
  (query : QueryParams)

/-- The rows whose name contains the one asked for. -/
def named (own : List SimulationModel) : List SimulationModel :=
  match query.truthy "name" with
  | none => own
  | some name => own.filter fun row => db.ilike row.name ("%" ++ name ++ "%")

/-- The rows the WHERE selects. -/
def matchingRows : Except ListError (List SimulationModel) :=
  let own := named db query (withCommunityScope internalId rows)
  match query.truthy "status" with
  | none => .ok own
  | some status =>
    match pyInt status with
    | none => .error .invalidStatus
    | some n => .ok (own.filter (·.status.number = n))

/-- `a` may come before `b` in an answer. -/
def orderLe (a b : SimulationModel) : Bool :=
  orderBy ((sortClauses query).map (SortClause.le db)) a b

/-- `OFFSET (page - 1) * page_size LIMIT page_size`. -/
def pageSlice (arranged : List SimulationModel) (page pageSize : Int) :
    Except ListError (List SimulationModel) :=
  if pageSize < 0 then .error .negativeLimit
  else if (page - 1) * pageSize < 0 then .error .negativeOffset
  else .ok ((arranged.drop ((page - 1) * pageSize).toNat).take pageSize.toNat)

/-- `get_list_simulations`, the matching rows being found as `arranged`. -/
def getListSimulations (arranged : List SimulationModel) (page pageSize : Int) :
    Except ListError (List SimulationModel × Nat) := do
  let matching ← matchingRows db internalId rows query
  let data ← pageSlice arranged page pageSize
  return (data, matching.length)

/-- A list row of a simulation. -/
structure Simulation where
  id : Nat
  name : String
  status : SimulationStatus
  idKey : Nat
  keyName : String
  deriving DecidableEq, Repr

def toSimulationSchema (simulation : SimulationModel) : Simulation :=
  { id := simulation.id
    name := simulation.name
    status := simulation.status
    idKey := simulation.idKey
    keyName := simulation.keyName }

structure Pagination where
  page : Int
  limit : Int
  total : Nat
  totalPages : Int
  deriving DecidableEq, Repr

/-- `get_simulations`. -/
def getSimulations (arranged : List SimulationModel) (page pageSize : Int) :
    Except ListError (List Simulation × Pagination) := do
  let (found, total) ← getListSimulations db internalId rows query arranged page pageSize
  let data := found.map toSimulationSchema
  if pageSize = 0 then .error .divisionByZero
  else
    return (data,
      { page := page, limit := pageSize, total := total, totalPages := -(-(total : Int) / pageSize) })

/-- What a request may be answered: the database arranges the matching rows in any
order that the ORDER BY allows. -/
def MayList (page pageSize : Int) (answer : Except ListError (List Simulation × Pagination)) :
    Prop :=
  ∃ arranged, (∀ matching, matchingRows db internalId rows query = .ok matching →
      Arranges (fun a b => orderLe db query a b = true) matching arranged) ∧
    answer = getSimulations db internalId rows query arranged page pageSize

end Listing

end SimulationKey
