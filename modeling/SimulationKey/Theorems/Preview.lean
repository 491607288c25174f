import SimulationKey.Api.Requests
import SimulationKey.Theorems.Pivot

/-!
# The preview and the run

The preview of a period is computed by aggregates over its readings, the run by
pivoting and sharing them. Over exact arithmetic, whatever run comes of the same
readings reports the energy that the preview announces.
-/

namespace SimulationKey.Theorems.Preview

open Kit PyFloat Theorems.Preflight Theorems.Pivot

variable {key : AllocationKeyModel ℚ} {readings : List (MeterConsumption ℚ)}

/-- The key as the worker takes it from the CRM. -/
abbrev inputOf (key : AllocationKeyModel ℚ) : SimulationKeyInput ℚ :=
  withTrimmedParticipants (fromCrmAllocationKey key)

/-- The preview of the readings. -/
def previewOf (translate : String → String) (key : AllocationKeyModel ℚ)
    (readings : List (MeterConsumption ℚ)) : CrmDataPreview ℚ :=
  toCrmDataPreview translate (evaluate (summaryOf readings)
    (consumerNamesOf (fromCrmAllocationKey key)) key.iterations.length)

/-! ## What the run is given -/

theorem participants_trimmed : (consumerNamesOf (inputOf key)).map normalizeParticipant =
    participantsOf key := by
  simp [consumerNamesOf_trimmed, participantsOf]

theorem length_inputOf : (inputOf key).iterations.length = key.iterations.length := by
  simp [withTrimmedParticipants, fromCrmAllocationKey, (sortedIterations_perm key).length_eq]

/-- A run that succeeds had a clear pre-flight, and was given the readings, each in
its place. -/
theorem given {res : KeySimResult ℚ} (hrun : runCrm key readings = .ok res) :
    Clear (summaryOf readings) (participantsOf key) key.iterations.length ∧
      Asked readings (participantsOf key) ∧
      runSimulation (inputOf key) (laidOutReadings readings (participantsOf key)).C
        (laidOutReadings readings (participantsOf key)).VA (participantsOf key) = .ok res := by
  obtain ⟨raw, hload, hsolve⟩ := runCrm_ok_iff.mp hrun
  obtain ⟨hclear, hpivot, hraw⟩ := loadCrm_ok_iff.mp hload
  rw [participants_trimmed, length_inputOf] at hclear
  rw [participants_trimmed] at hpivot hraw
  have hrows := fetchRows_perm readings
  have hsimulation := (solve_ok_iff.mp hsolve).2
  -- a repeated participant would have more than one row
  have hdistinct : (participantsOf key).Nodup := by
    obtain ⟨-, rfl⟩ := (load_pivotFrame_iff hpivot.requested hpivot.reserved).mp hraw
    obtain ⟨haccepted, -⟩ := runSimulation_ok_iff.mp hsimulation
    have hshape := haccepted.rows
    simp only [rawDataOf, List.length_map] at hshape
    exact length_selectedEans_eq_iff.mp hshape
  have hasked : Asked readings (participantsOf key) :=
    { finite := fun r _ => ⟨fun _ _ => rfl, fun _ _ => rfl⟩
      unique := (pairs_nodup_iff hrows).mp hpivot.unique
      some := hpivot.requested
      distinct := hdistinct
      reserved := hpivot.reserved
      listed := fun p hp => (mem_rows_ean hrows).mp (hpivot.present p hp) }
  obtain ⟨frame, hframe, hload'⟩ := pivotsTo_laidOutReadings hasked hrows
  obtain rfl := (buildDataframe_ok_iff.mp hframe).2
  obtain rfl : raw = laidOutReadings readings (participantsOf key) :=
    Except.ok.inj (hraw.symm.trans hload')
  exact ⟨hclear, hasked, hsimulation⟩

/-! ## What the preview announces -/

theorem matched_of_clear (translate : String → String)
    (hclear : Clear (summaryOf readings) (participantsOf key) key.iterations.length) :
    (previewOf translate key readings).matchedParticipants = participantsOf key ∧
      (previewOf translate key readings).unmatchedParticipants = [] := by
  have hmatched : ∀ p ∈ participantsOf key, decide (p ∈ (summaryOf readings).allEans) = true :=
    fun p hp => decide_eq_true (hclear.matched p hp)
  simp only [previewOf, toCrmDataPreview, evaluate, List.isEmpty_iff, hclear.data, if_false]
  constructor
  · exact List.filter_eq_self.mpr hmatched
  · exact List.filter_eq_nil_iff.mpr fun p hp => by simpa using hmatched p hp

theorem summary_evaluate (summary : CrmDataSummary ℚ) (names : List String) (iterations : Nat) :
    (evaluate summary names iterations).summary = summary := by
  unfold evaluate
  split_ifs <;> rfl

/-- The meters' consumption is that of the participants and that of the others. -/
theorem consumption_split (hdistinct : (participantsOf key).Nodup)
    (hlisted : ∀ p ∈ participantsOf key, ∃ r ∈ readings, r.ean = p) :
    ((summaryOf readings).eans.map (·.consumptionKwh)).sum =
      ((participantsOf key).map fun p => (coverageOf readings p).consumptionKwh).sum +
        (((summaryOf readings).eans.filter (·.ean ∉ participantsOf key)).map
          (·.consumptionKwh)).sum := by
  have heans : (distinctEans readings).Nodup :=
    (List.perm_insertionSort _ _).nodup_iff.mpr (List.nodup_dedup _)
  have hmine : ((distinctEans readings).filter (· ∈ participantsOf key)).Perm
      (participantsOf key) := by
    refine (List.perm_ext_iff_of_nodup (heans.filter _) hdistinct).mpr fun p => ?_
    rw [List.mem_filter, decide_eq_true_iff, mem_distinctEans]
    exact ⟨fun h => h.2, fun h => ⟨hlisted p h, h⟩⟩
  have hothers : (summaryOf readings).eans.filter (·.ean ∉ participantsOf key) =
      ((distinctEans readings).filter (· ∉ participantsOf key)).map (coverageOf readings) := by
    rw [summaryOf, List.filter_map]
    rfl
  have hall : ((distinctEans readings).filter (· ∈ participantsOf key) ++
      (distinctEans readings).filter (· ∉ participantsOf key)).Perm (distinctEans readings) := by
    simpa using List.filter_append_perm (fun ean => decide (ean ∈ participantsOf key))
      (distinctEans readings)
  have hsum := (hall.map fun ean => (coverageOf readings ean).consumptionKwh).sum_eq
  rw [List.map_append, List.sum_append, (hmine.map _).sum_eq] at hsum
  rw [hothers, List.map_map, summaryOf, List.map_map]
  exact hsum.symm

/-! ## What the run reports -/

theorem map_eq_ofFn {β : Type} (l : List String) (f : String → β) :
    l.map f = List.ofFn fun j => f (l.get j) := by
  conv_lhs => rw [← List.ofFn_get l, List.map_ofFn]
  rfl

section Reported

variable {participants : List String} {raw : SimulationRawData ℚ}

/-- A participant's row of the demand. -/
theorem sum_demand {input : SimulationKeyInput ℚ} (h : Accepted input raw.C raw.VA participants)
    (htallies : Tallies readings participants raw) (j : Fin participants.length) :
    ∑ t, h.demand j t = (coverageOf readings (participants.get j)).consumptionKwh := by
  have hrow := htallies.consumption j (participants.get j) (List.getElem?_eq_getElem j.isLt)
  rw [← hrow, Finset.sum_range]
  exact Finset.sum_congr rfl fun t _ => (h.demand_eq j.isLt t.isLt).symm

theorem sum_supply {input : SimulationKeyInput ℚ} (h : Accepted input raw.C raw.VA participants)
    (htallies : Tallies readings participants raw) (hcols : raw.VA.cols = raw.C.cols) :
    ∑ t, h.supply t = (summaryOf readings).totalInjectionKwh := by
  have hpos : 0 < participants.length := List.length_pos_iff.mpr h.consumers
  rw [← htallies.production 0 hpos, hcols, Finset.sum_range]
  exact Finset.sum_congr rfl fun t _ => (h.supply_eq t.isLt).symm

end Reported

/-- The run reports what the preview announces: every participant with the
consumption of its meter, and the first iteration's share of all injections. -/
structure Announces (preview : CrmDataPreview ℚ) (key : AllocationKeyModel ℚ)
    (readings : List (MeterConsumption ℚ)) (res : KeySimResult ℚ) : Prop where
  accepted : preview.canSimulate = true
  unmatched : preview.unmatchedParticipants = []
  participants : ∀ first, res.iterations.head? = some first →
    first.consumers.map (fun c => (c.name, c.consumptionTotal)) =
      preview.matchedParticipants.map fun p => (p, (coverageOf readings p).consumptionKwh)
  consumption : preview.totalConsumptionKwh = res.consumptionTotal +
    (((summaryOf readings).eans.filter (·.ean ∉ preview.matchedParticipants)).map
      (·.consumptionKwh)).sum
  injection : res.energyAllocatedTotal = preview.totalInjectionKwh * firstShare (inputOf key)

theorem preview_announces {res : KeySimResult ℚ} (hrun : runCrm key readings = .ok res)
    (translate : String → String) :
    Announces (previewOf translate key readings) key readings res := by
  obtain ⟨hclear, hasked, hsimulation⟩ := given hrun
  obtain ⟨h, first, rest, hres, rfl⟩ := runSimulation_ok_iff.mp hsimulation
  obtain ⟨hmatched, hunmatched⟩ := matched_of_clear translate hclear
  have htallies := tallies_laidOutReadings hasked
  have hdemand := sum_demand h htallies
  refine
    { accepted := evaluate_ok_iff.mpr hclear
      unmatched := hunmatched
      participants := fun first' hfirst => ?_
      consumption := ?_
      injection := ?_ }
  · obtain rfl : first = first' := Option.some.inj hfirst
    obtain ⟨x, hx, rfl⟩ := h.passes_of_results hres
    rw [hmatched]
    have hconsumer : ∀ j : Fin (participantsOf key).length, axisSum .series (x.2.consumption j) =
        (coverageOf readings ((participantsOf key).get j)).consumptionKwh := by
      intro j
      rw [axisSum_rat, (h.first_pass hx).1]
      exact hdemand j
    rw [map_eq_ofFn]
    simp only [iterationResult, List.map_ofFn, Function.comp_def, consumerResult, hconsumer]
  · have htotal : (previewOf translate key readings).totalConsumptionKwh =
        ((summaryOf readings).eans.map (·.consumptionKwh)).sum := by
      rw [previewOf, toCrmDataPreview, summary_evaluate, PyFloat.sumBy_rat]
    have hrows : ∑ t, ∑ j, h.demandAt t j =
        ((participantsOf key).map fun p => (coverageOf readings p).consumptionKwh).sum := by
      rw [Finset.sum_comm]
      show ∑ j, ∑ t, h.demand j t = _
      rw [Finset.sum_congr rfl fun j _ => hdemand j, ← List.sum_ofFn, map_eq_ofFn]
    rw [htotal, hmatched, h.consumptionTotal_eq hres, hrows]
    exact consumption_split hasked.distinct hasked.listed
  · have htotal : (previewOf translate key readings).totalInjectionKwh =
        (summaryOf readings).totalInjectionKwh := by
      rw [previewOf, toCrmDataPreview, summary_evaluate]
    rw [htotal, h.energyAllocatedTotal_eq hres, sum_supply h htallies rfl]

/-- A participant written with blanks around. -/
theorem preview_announces_padded :
    ∃ res, runCrm paddedKey twoMeters = .ok res ∧
      Announces (previewOf id paddedKey twoMeters) paddedKey twoMeters res := by
  have hsucceeds : (runCrm paddedKey twoMeters).toOption.isSome = true := by decide +kernel
  cases hrun : runCrm paddedKey twoMeters with
  | error e =>
      rw [hrun] at hsucceeds
      cases hsucceeds
  | ok res => exact ⟨res, rfl, preview_announces hrun id⟩

end SimulationKey.Theorems.Preview
