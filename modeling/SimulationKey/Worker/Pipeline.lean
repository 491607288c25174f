import SimulationKey.Shared.CrmTimeseries

/-!
# From a key and its data to a result

The pure steps of `worker/dispatcher.py`: the key's mapping, the input's
conversion and checks, and the solve. `runFile` is the path of a parsed upload,
`runCrm` that of a period's readings, pre-flight included. A `Failure` carries
the text the worker records.
-/

namespace SimulationKey

open Kit PyFloat Kit.Text

variable {F L : Type} [PyFloat F]

/-- A deterministic failure of a run. -/
inductive Failure where
  | unsupportedFile (extension : String)
  | unreadableFile (text : String)
  | load (e : DataLoadError)
  | crmDataRejected (details : List String)
  | pivot (e : CrmPivotError)
  | crmLoad (e : DataLoadError)
  | tooLarge (detail : String)
  | input (e : SimulationInputError)
  deriving DecidableEq, Repr

/-- The error message saved with the failed row. -/
def Failure.message : Failure → String
  | unsupportedFile extension =>
    "parse_failed: Unsupported file extension: " ++ pyRepr extension
  | unreadableFile text => "parse_failed_unexpected: " ++ text
  | load e => (if e.isOwn then "parse_failed: " else "parse_failed_unexpected: ") ++ e.message
  | crmDataRejected details => "crm_data_rejected: " ++ String.intercalate "; " details
  | pivot e => "crm_pivot_failed: " ++ e.message
  | crmLoad e =>
    (if e.isOwn then "crm_pivot_failed: " else "crm_pivot_failed_unexpected: ") ++ e.message
  | tooLarge detail => "simulation_too_large: " ++ detail
  | input e => "simulation_failed: " ++ e.message

/-! ## The key -/

def trimmedConsumer (c : SimulationConsumerInput F) : SimulationConsumerInput F :=
  { name := normalizeParticipant c.name
    energyAllocatedPercentage := c.energyAllocatedPercentage }

/-- The key with every consumer name trimmed. -/
def withTrimmedParticipants (key : SimulationKeyInput F) : SimulationKeyInput F :=
  { name := key.name
    description := key.description
    iterations := key.iterations.map fun it =>
      { number := it.number
        energyAllocatedPercentage := it.energyAllocatedPercentage
        consumers := it.consumers.map trimmedConsumer } }

omit [PyFloat F] in
theorem consumerNamesOf_trimmed (key : SimulationKeyInput F) :
    consumerNamesOf (withTrimmedParticipants key) =
      (consumerNamesOf key).map normalizeParticipant := by
  unfold consumerNamesOf withTrimmedParticipants
  cases key.iterations with
  | nil => rfl
  | cons it rest => simp [trimmedConsumer, Function.comp_def]

@[simp] theorem normalizeParticipant_idem (name : String) :
    normalizeParticipant (normalizeParticipant name) = normalizeParticipant name :=
  strip_strip name

/-! ## The input -/

/-- The conversion of an upload, already parsed. -/
def loadFile (str : L → String) (dataframe : DataFrame L F) (injectionName : String)
    (consumerNames : List String) : Except Failure (SimulationRawData F) :=
  match toSimulationRawData str dataframe injectionName consumerNames with
  | .error e => .error (.load e)
  | .ok raw => .ok raw

/-- The pivot and the conversion of the readings of a period. -/
def pivotRows (rows : List (ConsumptionRow F)) (participants : List String) :
    Except Failure (SimulationRawData F) :=
  match buildDataframe rows participants with
  | .error e => .error (.pivot e)
  | .ok frame =>
    match toSimulationRawData id frame injectionColumn participants with
    | .error e => .error (.crmLoad e)
    | .ok raw => .ok raw

/-- What a pre-flight and the rows read after it give. -/
def loadRows (preflight : Preflight F) (rows : List (ConsumptionRow F)) :
    Except Failure (SimulationRawData F) :=
  if preflight.blockers ≠ [] then
    .error (.crmDataRejected (preflight.blockers.map (·.detail)))
  else pivotRows rows preflight.participants

/-- The pre-flight, the pivot and the conversion of a period's readings. -/
def loadCrm (readings : List (MeterConsumption F)) (consumerNames : List String)
    (iterations : Nat) : Except Failure (SimulationRawData F) :=
  let preflight := evaluate (summaryOf readings) consumerNames iterations
  loadRows preflight (if preflight.ok then fetchRows readings else [])

/-! ## The run -/

/-- The check of the parsed shape and the solve. -/
def solve (key : SimulationKeyInput F) (raw : SimulationRawData F) :
    Except Failure (KeySimResult F) :=
  match tooLarge raw.C.rows raw.C.cols key.iterations.length with
  | some detail => .error (.tooLarge detail)
  | none =>
    match runSimulation key raw.C raw.VA raw.consumerNames with
    | .error e => .error (.input e)
    | .ok res => .ok res

/-- The result with every per-timestep series emptied, the totals unchanged. -/
def withoutSeries (result : KeySimResult F) : KeySimResult F :=
  { result with
    iterations := result.iterations.map fun iteration =>
      { iteration with
        consumption := []
        energyAllocated := []
        energyAllocatedConsumed := []
        residualVolume := []
        surplus := []
        sharingRate := []
        selfSufficiencyRate := []
        consumers := iteration.consumers.map fun consumer =>
          { consumer with
            consumption := []
            energyAllocated := []
            energyAllocatedConsumed := []
            residualVolume := []
            surplus := [] } } }

/-- A key run over an upload. -/
def runFile (str : L → String) (key : AllocationKeyModel F) (dataframe : DataFrame L F)
    (injectionName : String) : Except Failure (KeySimResult F) := do
  let keyInput := fromCrmAllocationKey key
  let raw ← loadFile str dataframe injectionName (consumerNamesOf keyInput)
  solve keyInput raw

/-- A key run over a period's readings. -/
def runCrm (key : AllocationKeyModel F) (readings : List (MeterConsumption F)) :
    Except Failure (KeySimResult F) := do
  let keyInput := withTrimmedParticipants (fromCrmAllocationKey key)
  let raw ← loadCrm readings (consumerNamesOf keyInput) keyInput.iterations.length
  solve keyInput raw

theorem solve_ok_iff {key : SimulationKeyInput F} {raw : SimulationRawData F}
    {res : KeySimResult F} :
    solve key raw = .ok res ↔
      tooLarge raw.C.rows raw.C.cols key.iterations.length = none ∧
        runSimulation key raw.C raw.VA raw.consumerNames = .ok res := by
  unfold solve
  cases htoo : tooLarge raw.C.rows raw.C.cols key.iterations.length with
  | some detail => simp
  | none =>
      cases hrun : runSimulation key raw.C raw.VA raw.consumerNames with
      | error e => simp
      | ok res => simp

theorem runFile_ok_iff {str : L → String} {key : AllocationKeyModel F} {dataframe : DataFrame L F}
    {injectionName : String} {res : KeySimResult F} :
    runFile str key dataframe injectionName = .ok res ↔
      ∃ raw, toSimulationRawData str dataframe injectionName
          (consumerNamesOf (fromCrmAllocationKey key)) = .ok raw ∧
        solve (fromCrmAllocationKey key) raw = .ok res := by
  unfold runFile loadFile
  cases hload : toSimulationRawData str dataframe injectionName
      (consumerNamesOf (fromCrmAllocationKey key)) with
  | error e => simp [Bind.bind, Except.bind, hload]
  | ok raw => simp [Bind.bind, Except.bind, hload]

theorem runCrm_ok_iff {key : AllocationKeyModel F} {readings : List (MeterConsumption F)}
    {res : KeySimResult F} :
    runCrm key readings = .ok res ↔
      ∃ raw, loadCrm readings
          (consumerNamesOf (withTrimmedParticipants (fromCrmAllocationKey key)))
          (withTrimmedParticipants (fromCrmAllocationKey key)).iterations.length = .ok raw ∧
        solve (withTrimmedParticipants (fromCrmAllocationKey key)) raw = .ok res := by
  unfold runCrm
  cases hload : loadCrm readings
      (consumerNamesOf (withTrimmedParticipants (fromCrmAllocationKey key)))
      (withTrimmedParticipants (fromCrmAllocationKey key)).iterations.length with
  | error e => simp [Bind.bind, Except.bind, hload]
  | ok raw => simp [Bind.bind, Except.bind, hload]

/-- A period loads exactly when its pre-flight is clear and its readings pivot
and convert. -/
theorem loadCrm_ok_iff {readings : List (MeterConsumption F)} {consumerNames : List String}
    {iterations : Nat} {raw : SimulationRawData F} :
    loadCrm readings consumerNames iterations = .ok raw ↔
      Clear (summaryOf readings) (consumerNames.map normalizeParticipant) iterations ∧
        Pivotable (fetchRows readings) (consumerNames.map normalizeParticipant) ∧
        toSimulationRawData id
          (pivotFrame (fetchRows readings) (consumerNames.map normalizeParticipant))
          injectionColumn (consumerNames.map normalizeParticipant) = .ok raw := by
  unfold loadCrm loadRows
  simp only [evaluate_participants]
  simp only [← evaluate_ok_iff, Preflight.ok, List.isEmpty_iff]
  by_cases hblockers : (evaluate (summaryOf readings) consumerNames iterations).blockers = []
  · simp only [hblockers, ne_eq, not_true_eq_false, if_false, if_true, true_and, pivotRows]
    cases hbuild : buildDataframe (fetchRows readings)
        (consumerNames.map normalizeParticipant) with
    | error e =>
        refine iff_of_false (by simp) fun h => ?_
        rw [buildDataframe_ok_iff.mpr ⟨h.1, rfl⟩] at hbuild
        cases hbuild
    | ok frame =>
        obtain ⟨hpivotable, rfl⟩ := buildDataframe_ok_iff.mp hbuild
        cases hload : toSimulationRawData id
            (pivotFrame (fetchRows readings) (consumerNames.map normalizeParticipant))
            injectionColumn (consumerNames.map normalizeParticipant) with
        | error e => simp [hload]
        | ok raw' => simp [hload, hpivotable]
  · simp [hblockers]

end SimulationKey
