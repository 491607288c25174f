import SimulationKey.Backend.Runs
import SimulationKey.Simulation.Refinement
import SimulationKey.Worker.AloneDelivery

/-!
# Settled on the first delivery

A message is settled on its first delivery unless the CRM cannot summarize its period
(a bound that has no date in UTC, a total out of range), or its key has a result and a
description longer than the result's column. All of these raise inside a step whose
errors count as transient.
-/

namespace SimulationKey.Theorems.PoisonPill

open Kit Kit.Prog

variable {F B L : Type} [PyFloat F]

/-! ## The tree of a key that fits the CRM -/

omit [PyFloat F] in
theorem ok_of_toOption {ε α : Type} {x : Except ε α} {a : α} (h : x.toOption = some a) :
    x = .ok a := by
  cases x with
  | error e => cases h
  | ok b => exact congrArg Except.ok (Option.some.inj h)

/-- The key fits the CRM's columns; its description is a text of any length. -/
def FitsCrm (key : AllocationKeyModel F) : Prop :=
  key.name.length ≤ 255 ∧ ∀ it ∈ key.iterations, ∀ c ∈ it.consumers, c.name.length ≤ 255

omit [PyFloat F] in
theorem length_of_mem_consumerNamesOf {key : AllocationKeyModel F} (hkey : FitsCrm key)
    {name : String} (hname : name ∈ consumerNamesOf (fromCrmAllocationKey key)) :
    name.length ≤ 255 := by
  have hmem : ∃ it ∈ sortedIterations key, name ∈ (fromCrmIteration it).consumers.map (·.name) := by
    unfold consumerNamesOf fromCrmAllocationKey at hname
    cases hsorted : sortedIterations key with
    | nil => simp [hsorted] at hname
    | cons it rest =>
        rw [hsorted] at hname
        exact ⟨it, List.mem_cons_self, hname⟩
  obtain ⟨it, hit, hname⟩ := hmem
  rw [(sortedIterations_perm key).mem_iff] at hit
  obtain ⟨c, hc, rfl⟩ := List.mem_map.mp hname
  obtain ⟨c', hc', rfl⟩ := List.mem_map.mp hc
  exact hkey.2 it hit c' hc'

/-- A run names its consumers as the data does. -/
theorem name_mem_of_run {keyInput : SimulationKeyInput F} {C VA : Mat F}
    {consumerNames : List String} {result : KeySimResult F}
    (hrun : runSimulation keyInput C VA consumerNames = .ok result)
    {it : IterationSimResult F} (hit : it ∈ result.iterations) {c : ConsumerSimResult F}
    (hc : c ∈ it.consumers) : c.name ∈ consumerNames := by
  obtain ⟨h, first, rest, hres, rfl⟩ := runSimulation_ok_iff.mp hrun
  have hmem : it ∈ h.results := by rw [hres]; exact hit
  obtain ⟨x, -, rfl⟩ := List.mem_map.mp hmem
  obtain ⟨j, rfl⟩ := (List.mem_ofFn' _ _).mp hc
  exact List.get_mem _ _

theorem keyTexts_of_run {keyInput : SimulationKeyInput F} {C VA : Mat F}
    {consumerNames : List String} {result : KeySimResult F}
    (hrun : runSimulation keyInput C VA consumerNames = .ok result) :
    result.name = keyInput.name ∧ result.description = keyInput.description := by
  obtain ⟨h, first, rest, hres, rfl⟩ := runSimulation_ok_iff.mp hrun
  exact ⟨rfl, rfl⟩

theorem consumerNames_of_loadUpload {lib : Libraries F B L} {content : B}
    {fileName injectionName : String} {consumerNames : List String} {raw : SimulationRawData F}
    (hload : loadUpload lib content fileName injectionName consumerNames = .ok raw) :
    raw.consumerNames = consumerNames := by
  unfold loadUpload loadFile at hload
  cases hparse : parseFile lib content fileName with
  | error failure => simp [hparse, Bind.bind, Except.bind] at hload
  | ok dataframe =>
      cases hconvert : toSimulationRawData lib.str dataframe injectionName consumerNames with
      | error e => simp [hparse, hconvert, Bind.bind, Except.bind] at hload
      | ok raw' =>
          obtain ⟨consumption, production, -, rfl⟩ := toSimulationRawData_ok_iff.mp hconvert
          simp only [hparse, hconvert, Bind.bind, Except.bind, Except.ok.injEq] at hload
          rw [← hload]
          rfl

/-- The data of a row names the consumers the key does, trimmed or not. -/
theorem consumerNames_of_sourceData {lib : Libraries F B L} {w : World F B}
    {row : SimulationModel} {key : AllocationKeyModel F} {raw : SimulationRawData F}
    (hraw : sourceData lib w row (keyInputOf row.source key) = some raw) :
    ∀ name ∈ raw.consumerNames, ∃ listed ∈ consumerNamesOf (fromCrmAllocationKey key),
      name.length ≤ listed.length := by
  unfold sourceData at hraw
  cases hsource : row.source with
  | file =>
      simp only [hsource, keyInputOf, uploadData] at hraw
      split at hraw
      · obtain ⟨content, -, hload⟩ := Option.bind_eq_some_iff.mp hraw
        intro name hname
        refine ⟨name, ?_, le_rfl⟩
        rwa [consumerNames_of_loadUpload (ok_of_toOption hload)] at hname
      · cases hraw
  | crm =>
      simp only [hsource, keyInputOf, periodData] at hraw
      split at hraw
      · obtain ⟨bounds, -, hload⟩ := Option.bind_eq_some_iff.mp hraw
        obtain ⟨-, -, hconvert⟩ := loadCrm_ok_iff.mp (ok_of_toOption hload)
        obtain ⟨consumption, production, -, rfl⟩ := toSimulationRawData_ok_iff.mp hconvert
        intro name hname
        rw [rawDataOf, consumerNamesOf_trimmed] at hname
        obtain ⟨trimmed, htrimmed, rfl⟩ := List.mem_map.mp hname
        obtain ⟨listed, hlisted, rfl⟩ := List.mem_map.mp htrimmed
        exact ⟨listed, hlisted, (Text.length_strip_le _).trans (Text.length_strip_le _)⟩
      · cases hraw

/-- The tree of such a key's result fits its columns when the description does. -/
theorem fits_iff {lib : Libraries F B L} {w : World F B} {row : SimulationModel}
    {key : AllocationKeyModel F} {result : KeySimResult F} (hkey : FitsCrm key)
    (hresult : resultOf lib w row key = some result) :
    (buildKeyResult (withoutSeries result) row.id row.idCommunity).fits = true ↔
      key.description.length ≤ 255 := by
  obtain ⟨raw, hraw, hsolve⟩ := Option.bind_eq_some_iff.mp hresult
  have hrun := (solve_ok_iff.mp (ok_of_toOption hsolve)).2
  have htexts : result.name = key.name ∧ result.description = key.description := by
    obtain ⟨hname, hdescription⟩ := keyTexts_of_run hrun
    rw [hname, hdescription]
    cases row.source <;> exact ⟨rfl, rfl⟩
  have hconsumers : ∀ it ∈ result.iterations, ∀ c ∈ it.consumers, c.name.length ≤ 255 := by
    intro it hit c hc
    obtain ⟨listed, hlisted, hlength⟩ :=
      consumerNames_of_sourceData hraw c.name (name_mem_of_run hrun hit hc)
    exact hlength.trans (length_of_mem_consumerNamesOf hkey hlisted)
  simp only [SimulationKeyResultModel.fits, buildKeyResult, withoutSeries, fitsVarchar, htexts.1,
    htexts.2, Bool.and_eq_true, decide_eq_true_eq, List.all_eq_true, List.mem_map, List.map_map]
  constructor
  · rintro ⟨⟨-, hdescription⟩, -⟩
    exact hdescription
  · intro hdescription
    refine ⟨⟨hkey.1, hdescription⟩, ?_⟩
    rintro it ⟨it', hit', rfl⟩ c hc
    simp only [Function.comp_apply, buildIterationResult, List.mem_map] at hc
    obtain ⟨-, ⟨c', hc', rfl⟩, rfl⟩ := hc
    exact hconsumers it' hit' c' hc'

/-! ## The first delivery -/

/-- The CRM answers for the row's period: its bounds can be sent, and no meter's total
is out of a double's range. -/
def Readable (w : World F B) (row : SimulationModel) : Prop :=
  ∀ idSharingOperation periodStart periodEnd, row.idSharingOperation = some idSharingOperation →
    row.periodStart = some periodStart → row.periodEnd = some periodEnd →
      dateMin < periodStart ∧ periodEnd + 1 ≤ dateMax ∧
        let readings := w.crm.meterConsumption row.idCommunity idSharingOperation periodStart
          (periodEnd + 1)
        ∀ ean ∈ distinctEans readings, sumsOverflow readings ean = false

theorem periodReadings_isNone {w : World F B}
    {idCommunity idSharingOperation periodStart periodEnd : Nat} :
    (periodReadings w idCommunity idSharingOperation periodStart periodEnd).toOption.isNone =
        false ↔
      dateMin < periodStart ∧ periodEnd + 1 ≤ dateMax ∧
        let readings := w.crm.meterConsumption idCommunity idSharingOperation periodStart
          (periodEnd + 1)
        ∀ ean ∈ distinctEans readings, sumsOverflow readings ean = false := by
  unfold periodReadings sentBounds periodBounds
  by_cases hend : periodEnd + 1 ≤ dateMax
  · by_cases hstart : periodStart ≤ dateMin
    · simp [hend, hstart, Bind.bind, Except.bind, Except.toOption]
    · have hstart' : dateMin < periodStart := by omega
      simp only [hend, hstart, hstart', if_true, if_false, true_and, Bind.bind, Except.bind,
        summarize]
      split_ifs with hover
      · obtain ⟨ean, hean, hover⟩ := List.any_eq_true.mp hover
        refine iff_of_false (by simp [Except.toOption]) fun hall => ?_
        rw [hall ean hean] at hover
        cases hover
      · refine iff_of_true rfl fun ean hean => ?_
        by_contra hsum
        exact hover (List.any_eq_true.mpr ⟨ean, hean, by simpa using hsum⟩)
  · simp [hend, Bind.bind, Except.bind, Except.toOption]

theorem readable_iff {w : World F B} {row : SimulationModel} :
    unreadable w row = false ↔ Readable w row := by
  unfold unreadable Readable
  cases row.idSharingOperation with
  | none => simp
  | some idSharingOperation =>
      cases row.periodStart with
      | none => simp
      | some periodStart =>
          cases row.periodEnd with
          | none => simp
          | some periodEnd =>
              refine periodReadings_isNone.trans ⟨fun h => ?_, fun h => h _ _ _ rfl rfl rfl⟩
              rintro _ _ _ ⟨⟩ ⟨⟩ ⟨⟩
              exact h

/-- The delivery is acked, and nothing else, with an outcome on the row. -/
def SettlesFirst (lib : Libraries F B L) (simulationId t : Nat) (w : World F B) : Prop :=
  ∃ r w', (handleMessage lib simulationId (some 1)).run (answer t) w = some (r, w') ∧
    w'.nats.replies = w.nats.replies ++ [(t, .ack)] ∧
      ∃ row, w'.db.row = some row ∧ (row.status = .success ∨ row.status = .failed)

/-- A waiting row is no poison pill exactly when, if the CRM finds its key, it answers for
the period and the key has no result or a description that fits. -/
theorem not_poisonPill_iff {lib : Libraries F B L} {w : World F B} {row : SimulationModel}
    (hkeys : ∀ key, w.crm.allocationKeys row.idKey row.idCommunity = some key → FitsCrm key) :
    ¬ PoisonPill lib w row ↔
      ∀ key, w.crm.allocationKeys row.idKey row.idCommunity = some key →
        (row.source = .crm → Readable w row) ∧
          (key.description.length ≤ 255 ∨ resultOf lib w row key = none) := by
  constructor
  · intro hclean key hfound
    refine ⟨fun hsource => readable_iff.mp ?_, ?_⟩
    · by_contra hunreadable
      exact hclean ⟨key, hfound, Or.inl ⟨hsource, by simpa using hunreadable⟩⟩
    · cases hresult : resultOf lib w row key with
      | none => exact Or.inr rfl
      | some result =>
          refine Or.inl ((fits_iff (hkeys key hfound) hresult).mp ?_)
          by_contra hfits
          exact hclean ⟨key, hfound, Or.inr ⟨result, hresult, by simpa using hfits⟩⟩
  · rintro hall ⟨key, hfound, ⟨hsource, hunreadable⟩ | ⟨result, hresult, hrefused⟩⟩
    · rw [readable_iff.mpr ((hall key hfound).1 hsource)] at hunreadable
      cases hunreadable
    · rcases (hall key hfound).2 with hlength | hnone
      · rw [(fits_iff (hkeys key hfound) hresult).mpr hlength] at hrefused
        cases hrefused
      · rw [hnone] at hresult
        cases hresult

/-- The first delivery of a waiting row settles it exactly when, if it finds a key, the
CRM answers for the row's period, and the key has no result or a description that fits
the result's column. -/
theorem settles_first_iff {lib : Libraries F B L} {simulationId t : Nat} {w : World F B}
    {row : SimulationModel} (hwaiting : Waiting row w)
    (hkeys : ∀ key, w.crm.allocationKeys row.idKey row.idCommunity = some key → FitsCrm key) :
    SettlesFirst lib simulationId t w ↔
      ∀ key, w.crm.allocationKeys row.idKey row.idCommunity = some key →
        (row.source = .crm → Readable w row) ∧
          (key.description.length ≤ 255 ∨ resultOf lib w row key = none) := by
  have hdelivery : Always (May t) (handleMessage lib simulationId (some 1))
      { stage := .row, fault := .never, world := w } fun _ s =>
        DeliveryEnds lib t row .never w s :=
    always_handleMessage lib hwaiting rfl
  obtain ⟨r, s, hrun, hnever, hends⟩ := run_of_always hdelivery rfl
  cases hends with
  | failed bare hit =>
      rw [hnever] at hit
      cases hit
  | back hit =>
      rw [hnever] at hit
      cases hit
  | poison pill spared committed replies =>
      -- the delivery is NAK'd
      refine iff_of_false ?_ fun hall => (not_poisonPill_iff hkeys).mpr hall pill
      rintro ⟨r', w', hrun', hreplies, -⟩
      obtain ⟨-, rfl⟩ := Prod.mk.inj (Option.some.inj (hrun.symm.trans hrun'))
      rw [replies] at hreplies
      simp at hreplies
  | @settled row' clean spared committed status replies =>
      refine iff_of_true ⟨r, s.world, hrun, replies, row', committed, ?_⟩
        ((not_poisonPill_iff hkeys).mp clean)
      cases hstatus : row'.status with
      | pending => exact absurd hstatus status
      | success => exact Or.inl rfl
      | failed => exact Or.inr rfl

/-- A short description: the first delivery saves the result. -/
theorem settles_first_smallKey : SettlesFirst smallLib 1 0 (smallWorld (some smallRow) 1 "d") := by
  have hwaiting : Waiting smallRow (smallWorld (some smallRow) 1 "d") := ⟨rfl, rfl, rfl⟩
  refine (settles_first_iff hwaiting ?_).mpr ?_
  · intro key hkey
    obtain rfl := Option.some.inj hkey
    unfold FitsCrm
    decide
  · intro key hkey
    obtain rfl := Option.some.inj hkey
    exact ⟨fun hsource => (by cases hsource), Or.inl (by decide)⟩

/-- A key of the CRM whose description is one character too long. -/
def wordyKey : AllocationKeyModel ℚ := smallKey (String.ofList (List.replicate 256 'd'))

/-- The first delivery over it is NAK'd, and the row left without an outcome. -/
theorem wordyKey_naked :
    FitsCrm wordyKey ∧ smallRow.status = .pending ∧
      ((handleMessage smallLib 1 (some 1)).run (answer 0)
        (smallWorld (some smallRow) 1 wordyKey.description)).map
          (fun x => (x.2.nats.replies, x.2.db.row.map (·.status))) =
        some ([(0, .nak)], some .pending) ∧
      ¬ SettlesFirst smallLib 1 0 (smallWorld (some smallRow) 1 wordyKey.description) := by
  have hrun : ((handleMessage smallLib 1 (some 1)).run (answer 0)
      (smallWorld (some smallRow) 1 wordyKey.description)).map
        (fun x => (x.2.nats.replies, x.2.db.row.map (·.status))) =
      some ([(0, .nak)], some .pending) := by
    decide +kernel
  refine ⟨by unfold FitsCrm; decide, rfl, hrun, ?_⟩
  rintro ⟨r, w', hrun', hreplies, -⟩
  rw [hrun', Option.map_some, Option.some.injEq, Prod.mk.injEq, hreplies] at hrun
  exact absurd hrun.1 (by decide)

end SimulationKey.Theorems.PoisonPill
