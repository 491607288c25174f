import SimulationKey.Kit.Float
import SimulationKey.Kit.Text

/-!
# The CRM pre-flight

`shared/crm_meter_repository.py`, `shared/problem_size.py` and
`shared/crm_preflight.py`: what the two aggregate queries report about a
period's readings, and the verdict on a key from that report alone. Instants
are integers; a reading's columns may be null.
-/

namespace SimulationKey

open Kit PyFloat Kit.Text

variable {F : Type} [PyFloat F]

/-! ## Readings -/

/-- A row of `meter_consumption` in the period. -/
structure MeterConsumption (F : Type) where
  timestamp : Int
  ean : String
  gross : Option F
  injGross : Option F

/-- A reading as the pivot consumes it, nulls coalesced. -/
structure ConsumptionRow (F : Type) where
  timestamp : Int
  ean : String
  gross : F
  injGross : F

structure EanCoverage (F : Type) where
  ean : String
  rowCount : Nat
  distinctTs : Nat
  consumptionKwh : F
  injectionKwh : F
  deriving DecidableEq, Repr

/-- The same `(ean, timestamp)` appears more than once. -/
def EanCoverage.hasDuplicateRows (e : EanCoverage F) : Bool := e.rowCount ≠ e.distinctTs

structure CrmDataSummary (F : Type) where
  eans : List (EanCoverage F)
  gridSize : Nat
  firstTimestamp : Option Int
  lastTimestamp : Option Int
  deriving DecidableEq, Repr

namespace CrmDataSummary

variable (s : CrmDataSummary F)

def totalRows : Nat := (s.eans.map (·.rowCount)).sum

def totalInjectionKwh : F := sumBy .builtin (s.eans.map (·.injectionKwh))

def allEans : List String := s.eans.map (·.ean)

def duplicateEans : List String := (s.eans.filter (·.hasDuplicateRows)).map (·.ean)

def incomplete : List (EanCoverage F) := s.eans.filter (·.distinctTs < s.gridSize)

end CrmDataSummary

/-! ## The queries -/

/-- `date.min` and `date.max`, as ordinals. -/
def dateMin : Nat := 1

def dateMax : Nat := 3652059

/-- The days whose local midnights bound a period, the last one excluded. -/
def periodBounds (periodStart periodEnd : Nat) : Except String (Nat × Nat) :=
  if periodEnd + 1 ≤ dateMax then .ok (periodStart, periodEnd + 1)
  else .error "date value out of range"

/-- The bounds as the driver sends them, in UTC. Brussels is ahead of it: the first
midnight of the calendar has no date there. -/
def sentBounds (periodStart periodEnd : Nat) : Except String (Nat × Nat) :=
  match periodBounds periodStart periodEnd with
  | .error e => .error e
  | .ok bounds =>
    if bounds.1 ≤ dateMin then .error "date value out of range" else .ok bounds

section Queries

variable (readings : List (MeterConsumption F))

/-- The readings of one meter. -/
def readingsOf (ean : String) : List (MeterConsumption F) := readings.filter (·.ean = ean)

/-- The group of one EAN; aggregates skip nulls. -/
def coverageOf (ean : String) : EanCoverage F :=
  let rows := readingsOf readings ean
  { ean := ean
    rowCount := rows.length
    distinctTs := (rows.map (·.timestamp)).dedup.length
    consumptionKwh := sumBy .query (rows.filterMap (·.gross))
    injectionKwh := sumBy .query (rows.filterMap (·.injGross)) }

/-- The query over that group raises: a sum is out of range. -/
def sumsOverflow (ean : String) : Bool :=
  overflows ((readingsOf readings ean).filterMap (·.gross)) ||
    overflows ((readingsOf readings ean).filterMap (·.injGross))

/-- The distinct EANs, `ORDER BY mc.ean`. -/
def distinctEans : List String := (readings.map (·.ean)).dedup.insertionSort (· ≤ ·)

/-- The distinct timestamps. -/
def distinctTimestamps : List Int := (readings.map (·.timestamp)).dedup

/-- What the two queries report. -/
def summaryOf : CrmDataSummary F :=
  { eans := (distinctEans readings).map (coverageOf readings)
    gridSize := (distinctTimestamps readings).length
    firstTimestamp := (readings.map (·.timestamp)).min?
    lastTimestamp := (readings.map (·.timestamp)).max? }

def summarize : Except String (CrmDataSummary F) :=
  if (distinctEans readings).any (sumsOverflow readings) then
    .error "value out of range: overflow"
  else .ok (summaryOf readings)

theorem summarize_ok {summary : CrmDataSummary F} (h : summarize readings = .ok summary) :
    summary = summaryOf readings := by
  unfold summarize at h
  split_ifs at h
  exact (Except.ok.inj h).symm

@[simp] theorem summarize_rat (readings : List (MeterConsumption ℚ)) :
    summarize readings = .ok (summaryOf readings) := by
  simp [summarize, sumsOverflow]

def coalesce (r : MeterConsumption F) : ConsumptionRow F :=
  { timestamp := r.timestamp
    ean := r.ean
    gross := r.gross.getD 0
    injGross := r.injGross.getD 0 }

/-- `ORDER BY mc.timestamp, mc.ean`. -/
def fetchRows : List (ConsumptionRow F) :=
  (readings.insertionSort fun a b =>
    a.timestamp < b.timestamp ∨ a.timestamp = b.timestamp ∧ a.ean ≤ b.ean).map coalesce

theorem fetchRows_perm : (fetchRows readings).Perm (readings.map coalesce) :=
  (List.perm_insertionSort _ _).map _

omit [PyFloat F] in
theorem mem_distinctEans {ean : String} :
    ean ∈ distinctEans readings ↔ ∃ r ∈ readings, r.ean = ean := by
  simp [distinctEans]

end Queries

/-! ## The problem size -/

def maxSimulationCells : Nat := 5000000

/-- `too_large`: the detail to report when the run exceeds the limit. -/
def tooLarge (participants timesteps iterations : Nat) : Option String :=
  let cells := participants * timesteps * iterations
  if cells ≤ maxSimulationCells then none
  else some (s!"{participants} participants x {timesteps} timesteps x {iterations} iterations "
    ++ s!"= {cells} cells exceed the {maxSimulationCells} limit; shorten the period, "
    ++ "or simulate a key with fewer participants or iterations")

/-! ## The verdict -/

def maxReadingRows : Nat := 5000000

def normalizeParticipant (name : String) : String := strip name

/-- The domain errors a blocker carries. -/
inductive PreflightError where
  | crmNoData
  | crmDuplicateReadings
  | crmNoInjection
  | crmRangeTooLarge
  | keyConsumersNotMatched
  | simulationTooLarge
  deriving DecidableEq, Repr

namespace PreflightError

def code : PreflightError → Nat
  | crmNoData => 2113
  | crmDuplicateReadings => 2114
  | crmNoInjection => 2115
  | crmRangeTooLarge => 2116
  | keyConsumersNotMatched => 2117
  | simulationTooLarge => 2119

def key : PreflightError → String
  | crmNoData => "ERRORS.SIMULATION.CRM_NO_DATA"
  | crmDuplicateReadings => "ERRORS.SIMULATION.CRM_DUPLICATE_READINGS"
  | crmNoInjection => "ERRORS.SIMULATION.CRM_NO_INJECTION"
  | crmRangeTooLarge => "ERRORS.SIMULATION.CRM_RANGE_TOO_LARGE"
  | keyConsumersNotMatched => "ERRORS.SIMULATION.KEY_CONSUMERS_NOT_MATCHED"
  | simulationTooLarge => "ERRORS.SIMULATION.SIMULATION_TOO_LARGE"

end PreflightError

/-- A reason the period cannot be used. -/
structure Blocker where
  error : PreflightError
  detail : String
  deriving DecidableEq, Repr

structure IncompleteMeter where
  ean : String
  readings : Nat
  expected : Nat
  missing : Nat
  deriving DecidableEq, Repr

structure Preflight (F : Type) where
  summary : CrmDataSummary F
  participants : List String
  matched : List String
  unmatched : List String
  blockers : List Blocker
  warnings : Option (List IncompleteMeter)
  deriving DecidableEq, Repr

def Preflight.ok (p : Preflight F) : Bool := p.blockers.isEmpty

/-- One check of `evaluate`: a blocker with its detail, or nothing. -/
def blockerIf (blocked : Bool) (error : PreflightError) (detail : String) : List Blocker :=
  if blocked then [{ error := error, detail := detail }] else []

@[simp] theorem blockerIf_eq_nil {blocked : Bool} {error : PreflightError} {detail : String} :
    blockerIf blocked error detail = [] ↔ blocked = false := by
  cases blocked <;> simp [blockerIf]

/-- The warnings about the matched meters that miss part of the grid. -/
def incompleteMeters (summary : CrmDataSummary F) (matched : List String) :
    List IncompleteMeter :=
  (summary.incomplete.filter fun e => e.ean ∈ matched).map fun e =>
    { ean := e.ean
      readings := e.distinctTs
      expected := summary.gridSize
      missing := summary.gridSize - e.distinctTs }

def evaluate (summary : CrmDataSummary F) (keyConsumerNames : List String) (iterations : Nat) :
    Preflight F :=
  let participants := keyConsumerNames.map normalizeParticipant
  if summary.eans.isEmpty then
    { summary := summary
      participants := participants
      matched := []
      unmatched := participants
      blockers :=
        [{ error := .crmNoData
           detail := "no readings for this sharing operation over this period" }]
      warnings := none }
  else
    let matched := participants.filter (· ∈ summary.allEans)
    let unmatched := participants.filter (· ∉ summary.allEans)
    let oversize := tooLarge participants.length summary.gridSize iterations
    let incomplete := incompleteMeters summary matched
    { summary := summary
      participants := participants
      matched := matched
      unmatched := unmatched
      blockers :=
        blockerIf (summary.totalRows > maxReadingRows) .crmRangeTooLarge
            (s!"{summary.totalRows} readings exceed the {maxReadingRows} limit; "
              ++ "choose a shorter period")
          ++ blockerIf oversize.isSome .simulationTooLarge (oversize.getD "")
          ++ blockerIf (!summary.duplicateEans.isEmpty) .crmDuplicateReadings
            ("the same timestamp appears more than once for meter(s) "
              ++ commaJoin summary.duplicateEans ++ " — the data was most likely imported twice")
          ++ blockerIf (!unmatched.isEmpty) .keyConsumersNotMatched
            ("the key names participant(s) with no matching meter in this period: "
              ++ commaJoin unmatched)
          ++ blockerIf (PyFloat.le summary.totalInjectionKwh 0) .crmNoInjection
            "no energy was injected over this period — there is nothing to share"
      warnings := if incomplete.isEmpty then none else some incomplete }

theorem evaluate_participants (summary : CrmDataSummary F) (names : List String)
    (iterations : Nat) :
    (evaluate summary names iterations).participants = names.map normalizeParticipant := by
  unfold evaluate
  split_ifs <;> rfl

/-- What a pre-flight without blockers has checked. -/
structure Clear (summary : CrmDataSummary F) (participants : List String) (iterations : Nat) :
    Prop where
  data : summary.eans ≠ []
  rows : summary.totalRows ≤ maxReadingRows
  size : tooLarge participants.length summary.gridSize iterations = none
  duplicates : summary.duplicateEans = []
  matched : ∀ p ∈ participants, p ∈ summary.allEans
  injection : PyFloat.le summary.totalInjectionKwh 0 = false

theorem evaluate_ok_iff {summary : CrmDataSummary F} {names : List String} {iterations : Nat} :
    (evaluate summary names iterations).ok = true ↔
      Clear summary (names.map normalizeParticipant) iterations := by
  unfold evaluate Preflight.ok
  by_cases hdata : summary.eans = []
  · simp only [hdata, List.isEmpty_nil, if_true]
    exact iff_of_false (by simp) fun h => h.data hdata
  · simp only [List.isEmpty_iff, hdata, if_false, List.append_eq_nil_iff, blockerIf_eq_nil,
      decide_eq_false_iff_not, not_lt, Option.isSome_eq_false_iff, Option.isNone_iff_eq_none,
      Bool.not_eq_eq_eq_not, Bool.not_false, List.filter_eq_nil_iff, decide_eq_true_eq, not_not]
    constructor
    · rintro ⟨⟨⟨⟨hrows, hsize⟩, hdup⟩, hmatched⟩, hinjection⟩
      exact ⟨hdata, hrows, hsize, hdup, hmatched, hinjection⟩
    · rintro ⟨-, hrows, hsize, hdup, hmatched, hinjection⟩
      exact ⟨⟨⟨⟨hrows, hsize⟩, hdup⟩, hmatched⟩, hinjection⟩

end SimulationKey
