import SimulationKey.Shared.CrmPreflight
import SimulationKey.Shared.DataLoading

/-!
# `shared/crm_timeseries.py`

The pivot of a period's readings into the table an upload would have given: one
column per requested participant and one for the injection summed over every
meter, over the sorted grid of the period's timestamps.
-/

namespace SimulationKey

open Kit PyFloat Kit.Text

variable {F : Type} [PyFloat F]

def injectionColumn : String := "__injection__"

/-- Readings that cannot form a rectangular timeseries. -/
inductive CrmPivotError where
  | noReadings
  | noConsumerEans
  | reservedColumn
  | duplicateReadings
  | missingParticipants (eans : List String)
  deriving DecidableEq, Repr

def CrmPivotError.message : CrmPivotError → String
  | .noReadings => "no readings to pivot"
  | .noConsumerEans => "no consumer EANs requested"
  | .reservedColumn => s!"{pyRepr injectionColumn} is reserved and cannot be a participant"
  | .duplicateReadings =>
    "duplicate (ean, timestamp) readings: Index contains duplicate entries, cannot reshape"
  | .missingParticipants eans => s!"no readings for requested participant(s): {reprList eans}"

/-! ## The pivot -/

section Pivot

variable (rows : List (ConsumptionRow F))

/-- `fillna(0.0)` on one value. -/
def fillna (x : F) : F := if isNaN x then 0 else x

/-- The period's timestamps, in chronological order. -/
def grid : List Int := (rows.map (·.timestamp)).dedup.insertionSort (· ≤ ·)

/-- A participant's reading at an instant, a gap as 0. -/
def readingAt (ean : String) (timestamp : Int) : F :=
  match rows.find? fun r => r.ean = ean ∧ r.timestamp = timestamp with
  | some r => fillna r.gross
  | none => 0

/-- The injection of every meter at an instant; the sum skips missing values. -/
def injectionAt (timestamp : Int) : F :=
  fillna (sumBy .group
    (((rows.filter (·.timestamp = timestamp)).map (·.injGross)).filter (!isNaN ·)))

/-- The participants' columns of values, in the requested order. -/
def participantColumn (ean : String) : Fin (grid rows).length → F :=
  fun t => readingAt rows ean ((grid rows).get t)

def injectionSeries : Fin (grid rows).length → F :=
  fun t => injectionAt rows ((grid rows).get t)

def pivotColumns (consumerEans : List String) :
    List (String × (Fin (grid rows).length → Except String F)) :=
  (consumerEans.map fun ean => (ean, fun t => .ok (participantColumn rows ean t)))
    ++ [(injectionColumn, fun t => .ok (injectionSeries rows t))]

def pivotFrame (consumerEans : List String) : DataFrame String F :=
  { timesteps := (grid rows).length
    columns := pivotColumns rows consumerEans }

def buildDataframe (consumerEans : List String) : Except CrmPivotError (DataFrame String F) :=
  if rows.isEmpty then .error .noReadings
  else if consumerEans.isEmpty then .error .noConsumerEans
  else if injectionColumn ∈ consumerEans then .error .reservedColumn
  else if ¬ (rows.map fun r => (r.timestamp, r.ean)).Nodup then .error .duplicateReadings
  else
    let missing := consumerEans.filter (· ∉ rows.map (·.ean))
    if missing ≠ [] then .error (.missingParticipants missing)
    else .ok (pivotFrame rows consumerEans)

end Pivot

/-- Readings the pivot takes. -/
structure Pivotable (rows : List (ConsumptionRow F)) (consumerEans : List String) : Prop where
  nonempty : rows ≠ []
  requested : consumerEans ≠ []
  reserved : injectionColumn ∉ consumerEans
  unique : (rows.map fun r => (r.timestamp, r.ean)).Nodup
  present : ∀ ean ∈ consumerEans, ean ∈ rows.map (·.ean)

theorem buildDataframe_ok_iff {rows : List (ConsumptionRow F)} {consumerEans : List String}
    {frame : DataFrame String F} :
    buildDataframe rows consumerEans = .ok frame ↔
      Pivotable rows consumerEans ∧ frame = pivotFrame rows consumerEans := by
  unfold buildDataframe
  simp only [List.isEmpty_iff, ne_eq, List.filter_eq_nil_iff, decide_eq_true_eq, not_not]
  split_ifs with hrows hconsumers hreserved hunique hpresent
  · exact iff_of_false (by simp) fun h => h.1.nonempty hrows
  · exact iff_of_false (by simp) fun h => h.1.requested hconsumers
  · exact iff_of_false (by simp) fun h => h.1.reserved hreserved
  · rw [Except.ok.injEq, eq_comm, iff_and_self]
    exact fun _ => ⟨hrows, hconsumers, hreserved, hunique, hpresent⟩
  · exact iff_of_false (by simp) fun h => hpresent h.1.present
  · exact iff_of_false (by simp) fun h => hunique h.1.unique

/-! ## The pivoted table, loaded -/

section Load

variable {rows : List (ConsumptionRow F)} {consumerEans : List String}

/-- A participant requested once per occurrence selects every column of its
label. -/
def selectedEans (consumerEans : List String) : List String :=
  consumerEans.flatMap fun ean => consumerEans.filter (· = ean)

/-- Selecting repeated labels changes the number of columns. -/
theorem length_selectedEans_eq_iff :
    (selectedEans consumerEans).length = consumerEans.length ↔ consumerEans.Nodup := by
  have hcount : ∀ l : List String, (∀ ean ∈ l, 1 ≤ consumerEans.count ean) →
      l.length ≤ (l.map fun ean => consumerEans.count ean).sum ∧
        ((l.map fun ean => consumerEans.count ean).sum = l.length →
          ∀ ean ∈ l, consumerEans.count ean = 1) := by
    intro l
    induction l with
    | nil => simp
    | cons ean rest ih =>
        intro hpos
        obtain ⟨hle, heq⟩ := ih fun e he => hpos e (List.mem_cons_of_mem _ he)
        have hhead := hpos ean List.mem_cons_self
        rw [List.map_cons, List.sum_cons, List.length_cons]
        refine ⟨by omega, fun hsum => List.forall_mem_cons.mpr ⟨by omega, heq (by omega)⟩⟩
  have hlength : (selectedEans consumerEans).length =
      (consumerEans.map fun ean => consumerEans.count ean).sum := by
    rw [selectedEans, List.length_flatMap]
    refine congrArg List.sum (List.map_congr_left fun ean _ => ?_)
    rw [List.count_eq_length_filter]
    exact congrArg List.length (List.filter_congr fun e _ => Bool.eq_iff_iff.mpr (by simp))
  rw [hlength]
  constructor
  · intro hsum
    rw [List.nodup_iff_count_le_one]
    intro ean
    by_cases hmem : ean ∈ consumerEans
    · exact ((hcount consumerEans fun e he => List.count_pos_iff.mpr he).2 hsum ean hmem).le
    · rw [List.count_eq_zero_of_not_mem hmem]
      exact zero_le_one
  · intro hnodup
    rw [List.map_congr_left fun ean hean => List.count_eq_one_of_mem hnodup hean]
    simp

theorem columnsNamed_participant {ean : String} (hean : ean ≠ injectionColumn) :
    columnsNamed (pivotColumns rows consumerEans) ean =
      (consumerEans.filter (· = ean)).map fun e t => .ok (participantColumn rows e t) := by
  simp only [columnsNamed, pivotColumns, List.filter_append, List.filter_map, List.map_map,
    List.filter_cons, hean.symm, decide_false, Bool.false_eq_true, if_false, List.filter_nil,
    List.append_nil]
  rfl

/-- The participants' columns, selected by name. -/
theorem selected_pivotColumns (hreserved : injectionColumn ∉ consumerEans) :
    consumerEans.flatMap (columnsNamed (pivotColumns rows consumerEans)) =
      ((selectedEans consumerEans).map (participantColumn rows)).map
        fun column t => .ok (column t) := by
  rw [selectedEans, List.map_flatMap, List.map_flatMap]
  refine List.flatMap_congr fun ean hean => ?_
  rw [columnsNamed_participant fun heq => hreserved (heq ▸ hean), List.map_map]
  rfl

theorem columnsNamed_injection (hreserved : injectionColumn ∉ consumerEans) :
    columnsNamed (pivotColumns rows consumerEans) injectionColumn =
      [injectionSeries rows].map fun column t => .ok (column t) := by
  have hnone : consumerEans.filter (fun ean => decide (ean = injectionColumn)) = [] :=
    List.filter_eq_nil_iff.mpr fun ean hean heq =>
      hreserved (of_decide_eq_true heq ▸ hean)
  simp only [columnsNamed, pivotColumns, List.filter_append, List.filter_map, Function.comp_def,
    hnone, List.map_nil, List.nil_append, List.filter_cons, decide_true,
    if_true, List.filter_nil, List.map_cons]

theorem renamed_pivotFrame :
    renamed id (pivotFrame rows consumerEans) = pivotColumns rows consumerEans :=
  List.map_id _

theorem mem_pivotColumns {ean : String} :
    ean ∈ (pivotColumns rows consumerEans).map Prod.fst ↔
      ean ∈ consumerEans ∨ ean = injectionColumn := by
  simp [pivotColumns]

/-- The pivoted table loads exactly when its values are finite, with one row per
selected column. -/
theorem load_pivotFrame_iff (hrequested : consumerEans ≠ [])
    (hreserved : injectionColumn ∉ consumerEans) {raw : SimulationRawData F} :
    toSimulationRawData id (pivotFrame rows consumerEans) injectionColumn consumerEans =
        .ok raw ↔
      ((∀ ean ∈ consumerEans, ∀ t, isFinite (participantColumn rows ean t) = true) ∧
        ∀ t, isFinite (injectionSeries rows t) = true) ∧
      raw = rawDataOf ((selectedEans consumerEans).map (participantColumn rows))
        [injectionSeries rows] consumerEans := by
  have hselected : toNumpy (T := (grid rows).length) (consumerEans.flatMap
      (columnsNamed (pivotColumns rows consumerEans))) =
        .ok ((selectedEans consumerEans).map (participantColumn rows)) := by
    rw [selected_pivotColumns hreserved, toNumpy_of_values]
  have hinjection : toNumpy (T := (grid rows).length) (columnsNamed
      (pivotColumns rows consumerEans) injectionColumn) = .ok [injectionSeries rows] := by
    rw [columnsNamed_injection hreserved, toNumpy_of_values]
  have hrenamed : renamed id (pivotFrame rows consumerEans) = pivotColumns rows consumerEans :=
    renamed_pivotFrame
  rw [← hrenamed] at hselected hinjection
  have hmem : ∀ ean, ean ∈ selectedEans consumerEans ↔ ean ∈ consumerEans := by
    simp [selectedEans]
  rw [toSimulationRawData_ok_iff]
  constructor
  · rintro ⟨consumption, production, h, rfl⟩
    obtain rfl := Except.ok.inj (hselected.symm.trans h.convertedConsumption)
    obtain rfl := Except.ok.inj (hinjection.symm.trans h.convertedProduction)
    refine ⟨⟨fun ean hean => ?_, ?_⟩, rfl⟩
    · exact h.finiteConsumption _ (List.mem_map_of_mem ((hmem ean).mpr hean))
    · exact h.finiteProduction _ (List.mem_singleton_self _)
  · rintro ⟨⟨hparticipants, hseries⟩, rfl⟩
    refine ⟨_, _, ?_, rfl⟩
    exact
      { requested := hrequested
        injection := hrenamed ▸ mem_pivotColumns.mpr (.inr rfl)
        consumers := fun ean hean => hrenamed ▸ mem_pivotColumns.mpr (.inl hean)
        convertedConsumption := hselected
        convertedProduction := hinjection
        finiteConsumption := by
          intro column hcolumn
          obtain ⟨ean, hean, rfl⟩ := List.mem_map.mp hcolumn
          exact hparticipants ean ((hmem ean).mp hean)
        finiteProduction := fun column hcolumn =>
          List.mem_singleton.mp hcolumn ▸ hseries }

end Load

/-! ## Finite readings -/

section Finite

variable {rows : List (ConsumptionRow F)}

theorem fillna_of_finite {x : F} (hx : isFinite x = true) : fillna x = x := by
  rw [fillna, isNaN_of_finite x hx]
  rfl

theorem fillna_finite {x : F} (hx : isFinite x = true) : isFinite (fillna x) = true := by
  rw [fillna_of_finite hx]
  exact hx

/-- A participant's column holds readings and zeros. -/
theorem participantColumn_finite (hrows : ∀ r ∈ rows, isFinite r.gross = true) (ean : String)
    (t : Fin (grid rows).length) : isFinite (participantColumn rows ean t) = true := by
  unfold participantColumn readingAt
  split
  · rename_i r hfind
    exact fillna_finite (hrows r (List.mem_of_find?_eq_some hfind))
  · exact isFinite_zero

end Finite

end SimulationKey
