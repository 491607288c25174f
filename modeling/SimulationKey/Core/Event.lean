import SimulationKey.Kit.JsonReader
import SimulationKey.Kit.JsonWriter

/-!
# Events

`core/queue/helper.py` and `shared/const.py`: what the API publishes, to which subject,
and as which bytes.
-/

namespace SimulationKey

open Kit Kit.Json

/-- `Event`. Its data is a dict: the members in their order. -/
structure Event where
  type : String
  data : List (List Nat × Json)
  version : Int := 1

/-- `Event.encode`. -/
def Event.encode (e : Event) : List UInt8 :=
  Text.encode (dumps (.obj
    [(points "type", .str (points e.type)), (points "version", .num (toString e.version).toList),
      (points "data", .obj e.data)]))

/-- `SIMULATION_SUBJECT`. -/
def simulationSubject : String := "optimce.simulation.run"

/-- The event of both start paths. -/
def simulationRequested (simulationId : Int) : Event :=
  { type := "simulation.requested"
    data := [(points "simulation_id", .num (toString simulationId).toList)] }

/-- What is written for a value is read as it. -/
theorem loads_dumps {v : Json} (h : v.Legal) : loads false (Text.encode (dumps v)) = some v := by
  have hdocument : Document v ([] ++ (dumps v ++ [])) :=
    .mk blank_nil (writes_dumps v h) blank_nil
  rw [List.nil_append, List.append_nil] at hdocument
  exact loads_document hdocument fun hstrict => by cases hstrict

/-- An event is read as the object of its members. -/
theorem loads_encode (e : Event) (h : LegalMembers e.data) :
    loads false e.encode = some (.obj
      [(points "type", .str (points e.type)), (points "version", .num (toString e.version).toList),
        (points "data", .obj e.data)]) :=
  loads_dumps ⟨scalars_points _, scalars_points e.type, scalars_points _, isNumeral_int e.version,
    scalars_points _, h, trivial⟩

end SimulationKey
