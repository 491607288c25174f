import SimulationKey.Worker.Pipeline
import SimulationKey.Simulation.Refinement

/-!
# What a clear pre-flight leaves open

The pre-flight decides from two aggregate queries and the first iteration's
names. From its verdict follow the pivot's preconditions: readings exist
(`Clear.data`), no meter has two at one instant (`unique_of_clear`), every
participant has some (`Clear.matched`), and the parsed matrix has the size it
allowed. It does not look at

* whether the key names anybody, or names one participant twice;
* whether a participant is called as the injection column is;
* whether later iterations list the first one's participants;
* whether an instant's injections sum to a finite number.

With finite readings, a clear run succeeds exactly when none of these is amiss
(`clear_run_succeeds_iff`).
-/

namespace SimulationKey.Theorems.Preflight

open Kit PyFloat

variable {F : Type} [PyFloat F]

/-! ## The aggregates against the rows -/

section Aggregates

variable {readings : List (MeterConsumption F)}

omit [PyFloat F] in
theorem nodup_of_length_dedup {α : Type} [DecidableEq α] {l : List α}
    (h : l.length = l.dedup.length) : l.Nodup := by
  rw [← (List.dedup_sublist l).eq_of_length h.symm]
  exact List.nodup_dedup l

omit [PyFloat F] in
/-- Distinct timestamps in every meter's group make `(timestamp, ean)` unique. -/
theorem nodup_pairs_of_groups
    (hgroups : ∀ ean, ((readingsOf readings ean).map (·.timestamp)).Nodup) :
    (readings.map fun r => (r.timestamp, r.ean)).Nodup := by
  induction readings with
  | nil => exact List.nodup_nil
  | cons r rest ih =>
      have hhead := hgroups r.ean
      rw [readingsOf, List.filter_cons_of_pos (by simp), List.map_cons, List.nodup_cons] at hhead
      refine List.nodup_cons.mpr ⟨fun hmem => ?_, ih fun ean => ?_⟩
      · obtain ⟨r', hr', hpair⟩ := List.mem_map.mp hmem
        obtain ⟨htime, hean⟩ := Prod.mk.inj hpair
        refine hhead.1 (List.mem_map.mpr ⟨r', List.mem_filter.mpr ⟨hr', ?_⟩, htime⟩)
        exact decide_eq_true hean
      · have hsub : ((readingsOf rest ean).map (·.timestamp)).Sublist
            ((readingsOf (r :: rest) ean).map (·.timestamp)) :=
          ((List.sublist_cons_self r rest).filter _).map _
        exact (hgroups ean).sublist hsub

theorem unique_of_clear {participants : List String} {iterations : Nat}
    (h : Clear (summaryOf readings) participants iterations) :
    ((fetchRows readings).map fun r => (r.timestamp, r.ean)).Nodup := by
  have hgroups : ∀ ean, ((readingsOf readings ean).map (·.timestamp)).Nodup := by
    intro ean
    by_cases hmem : ean ∈ distinctEans readings
    · have hnone := List.map_eq_nil_iff.mp h.duplicates
      have hcover := List.filter_eq_nil_iff.mp hnone _ (List.mem_map_of_mem hmem)
      refine nodup_of_length_dedup ?_
      rw [List.length_map]
      exact not_not.mp fun hne => hcover (decide_eq_true hne)
    · have hempty : readingsOf readings ean = [] :=
        List.filter_eq_nil_iff.mpr fun r hr heq =>
          hmem ((mem_distinctEans readings).mpr ⟨r, hr, of_decide_eq_true heq⟩)
      rw [hempty]
      exact List.nodup_nil
  have hperm := (fetchRows_perm readings).map fun r => (r.timestamp, r.ean)
  rw [List.map_map] at hperm
  exact hperm.nodup_iff.mpr (nodup_pairs_of_groups hgroups)

theorem timestamps_perm (readings : List (MeterConsumption F)) :
    ((fetchRows readings).map (·.timestamp)).Perm (readings.map (·.timestamp)) := by
  have hperm := (fetchRows_perm readings).map (·.timestamp)
  rwa [List.map_map] at hperm

theorem length_grid (readings : List (MeterConsumption F)) :
    (grid (fetchRows readings)).length = (summaryOf readings).gridSize := by
  rw [grid, List.length_insertionSort]
  exact (timestamps_perm readings).dedup.length_eq

theorem mem_grid {timestamp : Int} :
    timestamp ∈ grid (fetchRows readings) ↔ ∃ r ∈ readings, r.timestamp = timestamp := by
  rw [grid, List.mem_insertionSort, List.mem_dedup, (timestamps_perm readings).mem_iff,
    List.mem_map]

/-- A clear period's readings pivot for participants that are some, and not the
injection column. -/
theorem pivotable_of_clear {participants : List String} {iterations : Nat}
    (h : Clear (summaryOf readings) participants iterations) (hsome : participants ≠ [])
    (hreserved : injectionColumn ∉ participants) :
    Pivotable (fetchRows readings) participants := by
  refine ⟨fun hnil => h.data ?_, hsome, hreserved, unique_of_clear h, fun ean hean => ?_⟩
  · have hempty : readings = [] := by
      have hlength := (fetchRows_perm readings).length_eq
      rw [hnil, List.length_map] at hlength
      exact List.length_eq_zero_iff.mp hlength.symm
    rw [hempty]
    rfl
  · have hmatched := h.matched ean hean
    simp only [CrmDataSummary.allEans, summaryOf, List.map_map] at hmatched
    obtain ⟨e, he, rfl⟩ := List.mem_map.mp hmatched
    obtain ⟨r, hr, hean'⟩ := (mem_distinctEans readings).mp he
    exact List.mem_map.mpr ⟨coalesce r,
      (fetchRows_perm readings).mem_iff.mpr (List.mem_map_of_mem hr), hean'⟩

end Aggregates

/-! ## The exact condition -/

/-- Every value read is finite. -/
def FiniteReadings (readings : List (MeterConsumption F)) : Prop :=
  ∀ r ∈ readings, (∀ x ∈ r.gross, isFinite x = true) ∧ ∀ x ∈ r.injGross, isFinite x = true

/-- Rows of finite readings hold finite values. -/
theorem FiniteReadings.rows {readings : List (MeterConsumption F)} (h : FiniteReadings readings)
    {rows : List (ConsumptionRow F)} (hrows : rows.Perm (readings.map coalesce)) :
    ∀ r ∈ rows, isFinite r.gross = true ∧ isFinite r.injGross = true := by
  have hcoalesced : ∀ x : Option F, (∀ y ∈ x, isFinite y = true) → isFinite (x.getD 0) = true := by
    intro x hx
    cases x with
    | none => exact isFinite_zero
    | some y => exact hx y rfl
  intro r hr
  obtain ⟨r', hr', rfl⟩ := List.mem_map.mp (hrows.mem_iff.mp hr)
  exact ⟨hcoalesced _ (h r' hr').1, hcoalesced _ (h r' hr').2⟩

/-- The key's participants, trimmed. -/
def participantsOf (key : AllocationKeyModel F) : List String :=
  (consumerNamesOf (fromCrmAllocationKey key)).map normalizeParticipant

/-- What the run needs beyond a clear pre-flight. -/
structure Runnable (key : AllocationKeyModel F) (readings : List (MeterConsumption F)) : Prop where
  some : participantsOf key ≠ []
  distinct : (participantsOf key).Nodup
  reserved : injectionColumn ∉ participantsOf key
  listed : ∀ it ∈ key.iterations, ∀ p ∈ participantsOf key,
    p ∈ it.consumers.map fun c => normalizeParticipant c.name
  injection : ∀ r ∈ readings, isFinite (injectionAt (fetchRows readings) r.timestamp) = true

section Run

variable {key : AllocationKeyModel F} {readings : List (MeterConsumption F)}

omit [PyFloat F] in
/-- The iterations of the trimmed key list the participants. -/
theorem trimmed_listed_iff :
    (∀ it ∈ (withTrimmedParticipants (fromCrmAllocationKey key)).iterations,
        missingConsumer it (participantsOf key) = none) ↔
      ∀ it ∈ key.iterations, ∀ p ∈ participantsOf key,
        p ∈ it.consumers.map fun c => normalizeParticipant c.name := by
  have hsorted := fun it => (sortedIterations_perm key).mem_iff (a := it)
  simp only [withTrimmedParticipants, fromCrmAllocationKey, List.forall_mem_map,
    missingConsumer_eq_none_iff, Function.comp_apply, fromCrmIteration, List.map_map, hsorted]
  rfl

/-- The injection series is finite at every instant of the grid. -/
theorem injection_finite_iff :
    (∀ t, isFinite (injectionSeries (fetchRows readings) t) = true) ↔
      ∀ r ∈ readings, isFinite (injectionAt (fetchRows readings) r.timestamp) = true := by
  constructor
  · intro h r hr
    obtain ⟨t, ht⟩ := List.get_of_mem (mem_grid.mpr ⟨r, hr, rfl⟩)
    rw [← ht]
    exact h t
  · intro h t
    obtain ⟨r, hr, hrt⟩ := mem_grid.mp (List.get_mem (grid (fetchRows readings)) t)
    have hfinite := h r hr
    rw [hrt] at hfinite
    exact hfinite

/-- The matrices a period's readings pivot into. -/
def pivotedData (key : AllocationKeyModel F) (readings : List (MeterConsumption F)) :
    SimulationRawData F :=
  rawDataOf ((selectedEans (participantsOf key)).map (participantColumn (fetchRows readings)))
    [injectionSeries (fetchRows readings)] (participantsOf key)

/-- With finite readings, a run whose pre-flight is clear succeeds exactly when
the key names somebody, nobody twice and nobody as the injection column, every
iteration lists the first one's participants, and the pivot adds up each instant's
injections to a finite number. -/
theorem clear_run_succeeds_iff (hfinite : FiniteReadings readings)
    {summary : CrmDataSummary F} (hsummary : summarize readings = .ok summary)
    (hclear : (evaluate summary (consumerNamesOf (fromCrmAllocationKey key))
      key.iterations.length).ok = true) :
    (∃ res, runCrm key readings = .ok res) ↔ Runnable key readings := by
  obtain rfl := summarize_ok readings hsummary
  have hclear : Clear (summaryOf readings) (participantsOf key) key.iterations.length :=
    evaluate_ok_iff.mp hclear
  have hnames : (consumerNamesOf (withTrimmedParticipants (fromCrmAllocationKey key))).map
      normalizeParticipant = participantsOf key := by
    simp [consumerNamesOf_trimmed, participantsOf]
  have hlength : (withTrimmedParticipants (fromCrmAllocationKey key)).iterations.length =
      key.iterations.length := by
    simp [withTrimmedParticipants, fromCrmAllocationKey, (sortedIterations_perm key).length_eq]
  have hgross : ∀ r ∈ fetchRows readings, isFinite r.gross = true := fun r hr =>
    (hfinite.rows (fetchRows_perm readings) r hr).1
  constructor
  · rintro ⟨res, hrun⟩
    obtain ⟨raw, hload, hsolve⟩ := runCrm_ok_iff.mp hrun
    obtain ⟨-, hpivot, hraw⟩ := loadCrm_ok_iff.mp hload
    rw [hnames] at hpivot hraw
    obtain ⟨⟨-, hinjection⟩, rfl⟩ :=
      (load_pivotFrame_iff hpivot.requested hpivot.reserved).mp hraw
    obtain ⟨haccepted, -⟩ := runSimulation_ok_iff.mp (solve_ok_iff.mp hsolve).2
    have hrows := haccepted.rows
    simp only [rawDataOf, List.length_map] at hrows
    exact
      { some := hpivot.requested
        distinct := length_selectedEans_eq_iff.mp hrows
        reserved := hpivot.reserved
        listed := trimmed_listed_iff.mp haccepted.listed
        injection := injection_finite_iff.mp hinjection }
  · intro h
    have hpivot := pivotable_of_clear hclear h.some h.reserved
    have hload : toSimulationRawData id (pivotFrame (fetchRows readings) (participantsOf key))
        injectionColumn (participantsOf key) = .ok (pivotedData key readings) :=
      (load_pivotFrame_iff h.some h.reserved).mpr
        ⟨⟨fun ean _ t => participantColumn_finite hgross ean t,
          injection_finite_iff.mpr h.injection⟩, rfl⟩
    have hselected := length_selectedEans_eq_iff.mpr h.distinct
    have haccepted : Accepted (withTrimmedParticipants (fromCrmAllocationKey key))
        (pivotedData key readings).C (pivotedData key readings).VA (participantsOf key) :=
      { iterations := by
          intro hnil
          refine h.some ?_
          rw [← hnames, consumerNamesOf, hnil]
          rfl
        consumers := h.some
        rows := by simpa [pivotedData, rawDataOf] using hselected
        production := ⟨List.length_pos_iff.mpr h.some, rfl⟩
        listed := trimmed_listed_iff.mpr h.listed }
    obtain ⟨res, hrun⟩ := haccepted.run_ok
    refine ⟨res, runCrm_ok_iff.mpr ⟨_, loadCrm_ok_iff.mpr ?_, solve_ok_iff.mpr ⟨?_, hrun⟩⟩⟩
    · rw [hnames, hlength]
      exact ⟨hclear, hpivot, hload⟩
    · have hsize := hclear.size
      rw [hlength]
      simpa [pivotedData, rawDataOf, hselected, length_grid] using hsize

end Run

/-- Two meters, one of which injects, at one instant. -/
def twoMeters : List (MeterConsumption ℚ) :=
  [⟨0, "A", some 100, none⟩, ⟨0, "B", some 50, some 1000⟩]

/-- A key that names the first meter with blanks around. -/
def paddedKey : AllocationKeyModel ℚ :=
  { name := "k"
    description := "d"
    iterations := [⟨1, 1, [⟨" A ", 1 / 2⟩, ⟨"B", 1 / 2⟩]⟩] }

theorem clear_run_succeeds_paddedKey : ∃ res, runCrm paddedKey twoMeters = .ok res := by
  refine (clear_run_succeeds_iff (by unfold FiniteReadings; decide +kernel)
    (summarize_rat twoMeters) (by decide +kernel)).mpr ?_
  exact
    { some := by decide +kernel
      distinct := by decide +kernel
      reserved := by decide +kernel
      listed := by decide +kernel
      injection := by decide +kernel }

/-- A key whose second iteration leaves out a participant of the first. -/
def unevenKey : AllocationKeyModel ℚ :=
  { name := "k"
    description := "d"
    iterations := [⟨1, 1 / 2, [⟨"A", 1 / 2⟩, ⟨"B", 1 / 2⟩]⟩, ⟨2, 1 / 2, [⟨"A", 1⟩]⟩] }

/-- The pre-flight has nothing against it; the run fails. -/
theorem uneven_key_clear_and_fails :
    FiniteReadings twoMeters ∧
      (∃ summary, summarize twoMeters = .ok summary ∧
        (evaluate summary (consumerNamesOf (fromCrmAllocationKey unevenKey))
          unevenKey.iterations.length).ok = true) ∧
      (runCrm unevenKey twoMeters).map (fun _ => ()) =
        .error (.input (.missingConsumer 2 "B")) := by
  refine ⟨?_, ?_, ?_⟩
  · unfold FiniteReadings
    decide +kernel
  · exact ⟨_, summarize_rat twoMeters, by decide +kernel⟩
  · decide +kernel

end SimulationKey.Theorems.Preflight
