import SimulationKey.Kit.Binary64
import SimulationKey.Kit.Groups
import SimulationKey.Theorems.Preflight

/-!
# The pivot against the aggregates

The pre-flight judges a period by two SQL aggregates, the pivot by the readings
themselves. On readings to be had and participants to be pivoted,

* **rejection** — the pivot raises exactly when the pre-flight reports repeated
  readings or participants without one (`pivot_rejects_iff`);
* **faithfulness** — what the pivot accepts it lays out reading by reading: a row
  for each participant, a column for each instant of the period, gaps as 0, the
  injections of an instant summed over all meters, as many columns and gaps as the
  pre-flight counts; over exact arithmetic the aggregates are the sums of that layout,
  in any order of the readings (`pivot_faithful`).
-/

namespace SimulationKey.Theorems.Pivot

open Kit PyFloat Theorems.Preflight

variable {F : Type} [PyFloat F]

/-! ## Groups and pairs -/

section Groups

variable {readings : List (MeterConsumption F)}

theorem mem_allEans {ean : String} :
    ean ∈ (summaryOf readings).allEans ↔ ∃ r ∈ readings, r.ean = ean := by
  rw [← mem_distinctEans]
  simp [CrmDataSummary.allEans, summaryOf, coverageOf]

omit [PyFloat F] in
theorem mem_readingsOf {ean : String} {r : MeterConsumption F} :
    r ∈ readingsOf readings ean ↔ r ∈ readings ∧ r.ean = ean := by
  simp [readingsOf]

omit [PyFloat F] in
/-- A meter of unique readings has as many as it has instants. -/
theorem nodup_group (h : (readings.map fun r => (r.timestamp, r.ean)).Nodup) (ean : String) :
    ((readingsOf readings ean).map (·.timestamp)).Nodup := by
  have hpairs : ((readingsOf readings ean).map fun r => (r.timestamp, r.ean)).Nodup :=
    h.sublist ((List.filter_sublist).map _)
  have hsplit : ((readingsOf readings ean).map fun r => (r.timestamp, r.ean)) =
      ((readingsOf readings ean).map (·.timestamp)).map fun timestamp => (timestamp, ean) := by
    rw [List.map_map]
    refine List.map_congr_left fun r hr => ?_
    rw [Function.comp_apply, (mem_readingsOf.mp hr).2]
  rw [hsplit] at hpairs
  exact hpairs.of_map _

/-- No meter has more rows than instants exactly when no reading is repeated. -/
theorem duplicateEans_eq_nil_iff :
    (summaryOf readings).duplicateEans = [] ↔
      (readings.map fun r => (r.timestamp, r.ean)).Nodup := by
  have hgroup : ∀ ean, (coverageOf readings ean).hasDuplicateRows = false ↔
      ((readingsOf readings ean).map (·.timestamp)).Nodup := by
    intro ean
    have hcount : (coverageOf readings ean).hasDuplicateRows = false ↔
        (readingsOf readings ean).length =
          ((readingsOf readings ean).map (·.timestamp)).dedup.length :=
      decide_eq_false_iff_not.trans not_not
    rw [hcount]
    constructor
    · intro hlength
      refine nodup_of_length_dedup ?_
      rw [List.length_map, hlength]
    · intro hnodup
      rw [hnodup.dedup, List.length_map]
  constructor
  · intro hnone
    refine nodup_pairs_of_groups fun ean => ?_
    by_cases hean : ean ∈ distinctEans readings
    · have hcover := List.filter_eq_nil_iff.mp (List.map_eq_nil_iff.mp hnone)
        (coverageOf readings ean) (List.mem_map_of_mem hean)
      exact (hgroup ean).mp (by simpa using hcover)
    · -- no reading, no repetition
      have hempty : readingsOf readings ean = [] :=
        List.filter_eq_nil_iff.mpr fun r hr heq =>
          hean ((mem_distinctEans readings).mpr ⟨r, hr, of_decide_eq_true heq⟩)
      rw [hempty]
      exact List.nodup_nil
  · intro hnodup
    rw [CrmDataSummary.duplicateEans, List.map_eq_nil_iff, List.filter_eq_nil_iff]
    intro e he
    obtain ⟨ean, -, rfl⟩ := List.mem_map.mp he
    rw [(hgroup ean).mpr (nodup_group hnodup ean)]
    exact Bool.false_ne_true

theorem summaryOf_eans_ne_nil (h : readings ≠ []) : (summaryOf readings).eans ≠ [] := by
  obtain ⟨r, rest, rfl⟩ := List.exists_cons_of_ne_nil h
  have hmem := (mem_distinctEans (r :: rest)).mpr ⟨r, List.mem_cons_self, rfl⟩
  exact List.ne_nil_of_mem (List.mem_map_of_mem hmem)

end Groups

/-! ## Rejection -/

section Rejection

theorem mem_blockerIf {blocked : Bool} {error : PreflightError} {detail : String} {b : Blocker} :
    b ∈ blockerIf blocked error detail ↔ blocked = true ∧ b = ⟨error, detail⟩ := by
  cases blocked <;> simp [blockerIf]

/-- The blockers that are about the readings themselves. -/
theorem reports_iff {summary : CrmDataSummary F} (hdata : summary.eans ≠ [])
    (participants : List String) (iterations : Nat) :
    (∃ b ∈ (evaluate summary participants iterations).blockers,
        b.error = .crmDuplicateReadings ∨ b.error = .keyConsumersNotMatched) ↔
      summary.duplicateEans ≠ [] ∨
        ∃ p ∈ participants.map normalizeParticipant, p ∉ summary.allEans := by
  unfold evaluate
  simp only [List.isEmpty_iff, hdata, if_false, List.mem_append, mem_blockerIf]
  constructor
  · rintro ⟨b, ((((⟨-, rfl⟩ | ⟨-, rfl⟩) | ⟨h, rfl⟩) | ⟨h, rfl⟩) | ⟨-, rfl⟩), herror⟩
    · simp at herror
    · simp at herror
    · exact .inl (by simpa using h)
    · right
      have hsome : (participants.map normalizeParticipant).filter (· ∉ summary.allEans) ≠ [] := by
        simpa [List.isEmpty_iff] using h
      obtain ⟨p, hp⟩ := List.exists_mem_of_ne_nil _ hsome
      exact ⟨p, List.mem_of_mem_filter hp, by simpa using (List.mem_filter.mp hp).2⟩
    · simp at herror
  · rintro (hdup | ⟨p, hp, hmissing⟩)
    · exact ⟨_, .inl (.inl (.inr ⟨by simpa using hdup, rfl⟩)), .inl rfl⟩
    · have hsome : (participants.map normalizeParticipant).filter (· ∉ summary.allEans) ≠ [] :=
        List.ne_nil_of_mem (List.mem_filter.mpr ⟨hp, by simpa using hmissing⟩)
      exact ⟨_, .inl (.inr ⟨by simpa [List.isEmpty_iff] using hsome, rfl⟩), .inr rfl⟩

variable {readings : List (MeterConsumption F)} {rows : List (ConsumptionRow F)}

theorem pairs_nodup_iff (hrows : rows.Perm (readings.map coalesce)) :
    (rows.map fun r => (r.timestamp, r.ean)).Nodup ↔
      (readings.map fun r => (r.timestamp, r.ean)).Nodup := by
  have hperm := hrows.map fun r => (r.timestamp, r.ean)
  rw [List.map_map] at hperm
  exact hperm.nodup_iff

theorem mem_rows_ean (hrows : rows.Perm (readings.map coalesce)) {ean : String} :
    ean ∈ rows.map (·.ean) ↔ ∃ r ∈ readings, r.ean = ean := by
  rw [(hrows.map _).mem_iff, List.map_map, List.mem_map]
  rfl

/-- The pivot raises exactly when the pre-flight reports repeated readings or
unmatched participants. -/
theorem pivot_rejects_iff (hrows : rows.Perm (readings.map coalesce)) (hreadings : readings ≠ [])
    {participants : List String} (hparticipants : participants ≠ [])
    (htrimmed : ∀ p ∈ participants, normalizeParticipant p = p)
    (hreserved : injectionColumn ∉ participants) (iterations : Nat) :
    (∃ e, buildDataframe rows participants = .error e) ↔
      ∃ b ∈ (evaluate (summaryOf readings) participants iterations).blockers,
        b.error = .crmDuplicateReadings ∨ b.error = .keyConsumersNotMatched := by
  have hnormalized : participants.map normalizeParticipant = participants := by
    rw [List.map_congr_left htrimmed, List.map_id']
  have hrows' : rows ≠ [] := fun hnil => by
    rw [hnil, List.nil_perm, List.map_eq_nil_iff] at hrows
    exact hreadings hrows
  have herror : (∃ e, buildDataframe rows participants = .error e) ↔
      ¬ Pivotable rows participants := by
    cases hbuild : buildDataframe rows participants with
    | error e =>
        refine iff_of_true ⟨e, rfl⟩ fun h => ?_
        rw [buildDataframe_ok_iff.mpr ⟨h, rfl⟩] at hbuild
        cases hbuild
    | ok frame =>
        refine iff_of_false (by simp) ?_
        exact not_not.mpr (buildDataframe_ok_iff.mp hbuild).1
  rw [herror, reports_iff (summaryOf_eans_ne_nil hreadings), hnormalized, ne_eq,
    duplicateEans_eq_nil_iff, ← pairs_nodup_iff hrows]
  constructor
  · intro hnot
    by_contra hboth
    push Not at hboth
    obtain ⟨hunique, hmatched⟩ := hboth
    exact hnot ⟨hrows', hparticipants, hreserved, hunique, fun ean hean =>
      (mem_rows_ean hrows).mpr (mem_allEans.mp (hmatched ean hean))⟩
  · rintro (hdup | ⟨p, hp, hmissing⟩) h
    · exact hdup h.unique
    · exact hmissing (mem_allEans.mpr ((mem_rows_ean hrows).mp (h.present p hp)))

/-- A meter imported twice. -/
theorem pivot_rejects_repeated :
    ∃ e, buildDataframe (F := ℚ) [⟨0, "A", 1, 0⟩, ⟨0, "A", 1, 0⟩] ["A"] = .error e := by
  have hrows : [⟨0, "A", 1, 0⟩, ⟨0, "A", 1, 0⟩].Perm
      ([⟨0, "A", some (1 : ℚ), none⟩, ⟨0, "A", some 1, none⟩].map coalesce) := .refl _
  exact (pivot_rejects_iff hrows (by simp) (by simp) (by decide +kernel) (by decide +kernel)
    1).mpr (by decide +kernel)

end Rejection

/-! ## The layout -/

/-- Finite readings, none repeated, and participants to pivot them for. -/
structure Asked (readings : List (MeterConsumption F)) (participants : List String) : Prop where
  finite : FiniteReadings readings
  unique : (readings.map fun r => (r.timestamp, r.ean)).Nodup
  some : participants ≠ []
  distinct : participants.Nodup
  reserved : injectionColumn ∉ participants
  listed : ∀ p ∈ participants, ∃ r ∈ readings, r.ean = p

theorem asked_one {readings : List (MeterConsumption F)} {p : String}
    (hfinite : FiniteReadings readings)
    (hunique : (readings.map fun r => (r.timestamp, r.ean)).Nodup) (hreserved : injectionColumn ≠ p)
    (hlisted : ∃ r ∈ readings, r.ean = p) : Asked readings [p] where
  finite := hfinite
  unique := hunique
  some := List.cons_ne_nil _ _
  distinct := List.nodup_singleton _
  reserved := by simpa using hreserved
  listed := by simpa using hlisted

theorem Asked.readings_ne_nil {readings : List (MeterConsumption F)} {participants : List String}
    (h : Asked readings participants) : readings ≠ [] := by
  obtain ⟨p, hp⟩ := List.exists_mem_of_ne_nil _ h.some
  obtain ⟨r, hr, -⟩ := h.listed p hp
  exact List.ne_nil_of_mem hr

section Layout

variable {rows rows' : List (ConsumptionRow F)}

/-- The pair a pivot places a reading by. -/
def place (r : ConsumptionRow F) : String × Int := (r.ean, r.timestamp)

omit [PyFloat F] in
theorem grid_perm (h : rows.Perm rows') : grid rows' = grid rows :=
  ((List.perm_insertionSort _ _).trans ((h.map _).dedup.symm.trans
    (List.perm_insertionSort _ _).symm)).eq_of_pairwise'
      (List.pairwise_insertionSort _ _) (List.pairwise_insertionSort _ _)

theorem readingAt_of_mem (hunique : (rows.map place).Nodup) {r : ConsumptionRow F}
    (hr : r ∈ rows) : readingAt rows r.ean r.timestamp = fillna r.gross := by
  have hfind : rows.find? (fun s => s.ean = r.ean ∧ s.timestamp = r.timestamp) = some r := by
    obtain ⟨s, hs⟩ := Option.isSome_iff_exists.mp
      ((List.find?_isSome (p := fun s : ConsumptionRow F =>
        decide (s.ean = r.ean ∧ s.timestamp = r.timestamp))).mpr ⟨r, hr, by simp⟩)
    have hplace : s.ean = r.ean ∧ s.timestamp = r.timestamp := by
      simpa using List.find?_some hs
    have hsame : s = r := List.inj_on_of_nodup_map hunique (List.mem_of_find?_eq_some hs) hr
      (Prod.ext hplace.1 hplace.2)
    rw [hs, hsame]
  rw [readingAt, hfind]

theorem readingAt_of_gap {ean : String} {timestamp : Int}
    (h : ∀ r ∈ rows, ¬(r.ean = ean ∧ r.timestamp = timestamp)) :
    readingAt rows ean timestamp = 0 := by
  have hnone : rows.find? (fun r => r.ean = ean ∧ r.timestamp = timestamp) = none :=
    List.find?_eq_none.mpr fun r hr heq => h r hr (of_decide_eq_true heq)
  rw [readingAt, hnone]

theorem readingAt_perm (hunique : (rows.map place).Nodup) (h : rows.Perm rows') :
    readingAt rows' = readingAt rows := by
  funext ean timestamp
  by_cases hr : ∃ r ∈ rows, r.ean = ean ∧ r.timestamp = timestamp
  · obtain ⟨r, hr, rfl, rfl⟩ := hr
    rw [readingAt_of_mem hunique hr,
      readingAt_of_mem ((h.map place).nodup_iff.mp hunique) (h.mem_iff.mp hr)]
  · push Not at hr
    rw [readingAt_of_gap fun r hrow heq => hr r hrow heq.1 heq.2,
      readingAt_of_gap fun r hrow heq => hr r (h.mem_iff.mpr hrow) heq.1 heq.2]

/-- The matrices of a reading for each participant and instant, and an injection
for each instant. -/
def laidOut (participants : List String) (instants : List Int) (reading : String → Int → F)
    (injection : Int → F) : SimulationRawData F :=
  rawDataOf (participants.map fun ean (t : Fin instants.length) => reading ean (instants.get t))
    [fun t => injection (instants.get t)] participants

/-- The readings pivot and load into these matrices. -/
def PivotsTo (rows : List (ConsumptionRow F)) (participants : List String)
    (raw : SimulationRawData F) : Prop :=
  ∃ frame, buildDataframe rows participants = .ok frame ∧
    toSimulationRawData id frame injectionColumn participants = .ok raw

theorem selectedEans_of_nodup {participants : List String} (h : participants.Nodup) :
    selectedEans participants = participants := by
  have hself : ∀ ean ∈ participants, participants.filter (· = ean) = [ean] := by
    intro ean hean
    rw [List.filter_eq, List.count_eq_one_of_mem h hean, List.replicate_one]
  rw [selectedEans, List.flatMap_congr hself]
  exact List.flatMap_singleton' participants

/-- What the pivot accepts, with finite values, it lays out over its own grid. -/
theorem pivotsTo_laidOut {participants : List String} (h : Pivotable rows participants)
    (hdistinct : participants.Nodup) (hgross : ∀ r ∈ rows, isFinite r.gross = true)
    (hinjection : ∀ r ∈ rows, isFinite (injectionAt rows r.timestamp) = true) :
    PivotsTo rows participants
      (laidOut participants (grid rows) (readingAt rows) (injectionAt rows)) := by
  refine ⟨_, buildDataframe_ok_iff.mpr ⟨h, rfl⟩, (load_pivotFrame_iff h.requested
    h.reserved).mpr ⟨⟨fun ean _ t => participantColumn_finite hgross ean t, fun t => ?_⟩, ?_⟩⟩
  · have hgrid : (grid rows).get t ∈ rows.map (·.timestamp) :=
      List.mem_dedup.mp ((List.mem_insertionSort _).mp (List.get_mem (grid rows) t))
    obtain ⟨r, hr, htime⟩ := List.mem_map.mp hgrid
    rw [injectionSeries, ← htime]
    exact hinjection r hr
  · rw [selectedEans_of_nodup hdistinct]
    rfl

variable {participants : List String} {instants : List Int} {reading : String → Int → F}
  {injection : Int → F}

theorem laidOut_consumption {i t : Nat} {p : String} {instant : Int}
    (hp : participants[i]? = some p) (ht : instants[t]? = some instant) :
    (laidOut participants instants reading injection).C.at i t = reading p instant := by
  obtain ⟨hi, rfl⟩ := List.getElem?_eq_some_iff.mp hp
  obtain ⟨hlt, rfl⟩ := List.getElem?_eq_some_iff.mp ht
  have hshape : i < (participants.map fun ean (t : Fin instants.length) =>
      reading ean (instants.get t)).length ∧ t < instants.length := by
    rw [List.length_map]
    exact ⟨hi, hlt⟩
  rw [Mat.at, laidOut, rawDataOf, dif_pos hshape]
  simp

theorem laidOut_production {i t : Nat} {instant : Int} (hi : i < participants.length)
    (ht : instants[t]? = some instant) :
    (laidOut participants instants reading injection).VA.at i t = injection instant := by
  obtain ⟨hlt, rfl⟩ := List.getElem?_eq_some_iff.mp ht
  have hshape : i < participants.length ∧ t < instants.length := ⟨hi, hlt⟩
  rw [Mat.at, laidOut, rawDataOf, tile, dif_pos hshape]
  rfl

end Layout

/-! ## Every reading in its place -/

section Places

/-- The injections of an instant, over all meters. -/
def injectedAt (rows : List (ConsumptionRow F)) (instant : Int) : F :=
  sumBy .group ((rows.filter (·.timestamp = instant)).map (·.injGross))

/-- The matrices hold every reading in its place, a gap as 0, and the injections
of an instant added up over all meters. -/
structure Faithful (readings : List (MeterConsumption F)) (rows : List (ConsumptionRow F))
    (participants : List String) (instants : List Int) (raw : SimulationRawData F) : Prop where
  chronological : instants.Pairwise (· < ·)
  complete : ∀ instant, instant ∈ instants ↔ ∃ r ∈ readings, r.timestamp = instant
  names : raw.consumerNames = participants
  consumptionShape : (raw.C.rows, raw.C.cols) = (participants.length, instants.length)
  productionShape : (raw.VA.rows, raw.VA.cols) = (participants.length, instants.length)
  reading : ∀ i p t instant, participants[i]? = some p → instants[t]? = some instant →
    ∀ r ∈ readings, r.ean = p → r.timestamp = instant → raw.C.at i t = r.gross.getD 0
  gap : ∀ i p t instant, participants[i]? = some p → instants[t]? = some instant →
    (∀ r ∈ readings, ¬(r.ean = p ∧ r.timestamp = instant)) → raw.C.at i t = 0
  injection : ∀ i < participants.length, ∀ t instant, instants[t]? = some instant →
    raw.VA.at i t = injectedAt rows instant

/-- The instants a participant has no reading at. -/
def gapsOf (readings : List (MeterConsumption F)) (instants : List Int) (p : String) : List Int :=
  instants.filter fun instant => ∀ r ∈ readings, ¬(r.ean = p ∧ r.timestamp = instant)

/-- The columns and the gaps are counted as the summary and the warnings count them. -/
structure Counted (readings : List (MeterConsumption F)) (participants : List String)
    (iterations : Nat) (instants : List Int) : Prop where
  columns : instants.length = (summaryOf readings).gridSize
  missing : ∀ p ∈ participants,
    ∀ w ∈ (evaluate (summaryOf readings) participants iterations).warnings.getD [],
      w.ean = p → w.missing = (gapsOf readings instants p).length
  warned : ∀ p ∈ participants,
    (∃ w ∈ (evaluate (summaryOf readings) participants iterations).warnings.getD [], w.ean = p) ↔
      gapsOf readings instants p ≠ []

variable {readings : List (MeterConsumption F)} {participants : List String}

theorem place_nodup (hunique : (readings.map fun r => (r.timestamp, r.ean)).Nodup) :
    ((readings.map coalesce).map place).Nodup := by
  have hswap := hunique.map Prod.swap_injective
  rw [List.map_map] at hswap ⊢
  exact hswap

omit [PyFloat F] in
theorem grid_nodup (rows : List (ConsumptionRow F)) : (grid rows).Nodup :=
  (List.perm_insertionSort _ _).nodup_iff.mpr (List.nodup_dedup _)

theorem mem_grid_coalesce {instant : Int} :
    instant ∈ grid (readings.map coalesce) ↔ ∃ r ∈ readings, r.timestamp = instant := by
  rw [grid, List.mem_insertionSort, List.mem_dedup, List.map_map]
  exact List.mem_map

omit [PyFloat F] in
theorem grid_strict (rows : List (ConsumptionRow F)) : (grid rows).Pairwise (· < ·) := by
  have hle : (grid rows).Pairwise (· ≤ ·) := List.pairwise_insertionSort _ _
  exact (hle.and (grid_nodup rows)).imp fun h => lt_of_le_of_ne h.1 h.2

theorem length_grid_coalesce :
    (grid (readings.map coalesce)).length = (summaryOf readings).gridSize := by
  rw [grid, List.length_insertionSort, List.map_map]
  rfl

omit [PyFloat F] in
theorem gapsOf_eq (instants : List Int) (p : String) :
    gapsOf readings instants p =
      instants.filter (· ∉ (readingsOf readings p).map (·.timestamp)) := by
  refine List.filter_congr fun instant _ => decide_eq_decide.mpr ?_
  simp only [List.mem_map, mem_readingsOf, not_exists, not_and]
  exact ⟨fun h r hr => h r hr.1 hr.2, fun h r hr hean => h r ⟨hr, hean⟩⟩

/-- A participant's gaps are the instants its meter does not count. -/
theorem length_gapsOf (p : String) :
    (gapsOf readings (grid (readings.map coalesce)) p).length =
      (summaryOf readings).gridSize - (coverageOf readings p).distinctTs := by
  rw [gapsOf_eq, length_filter_notMem (grid_nodup _), length_grid_coalesce]
  · rfl
  · intro instant hmem
    obtain ⟨r, hr, rfl⟩ := List.mem_map.mp hmem
    exact mem_grid_coalesce.mpr ⟨r, (mem_readingsOf.mp hr).1, rfl⟩

/-- The warnings are about the participants' meters that miss part of the grid. -/
theorem mem_warnings (h : Asked readings participants)
    (htrimmed : ∀ p ∈ participants, normalizeParticipant p = p) (iterations : Nat)
    {w : IncompleteMeter} :
    w ∈ (evaluate (summaryOf readings) participants iterations).warnings.getD [] ↔
      ∃ p ∈ participants, (coverageOf readings p).distinctTs < (summaryOf readings).gridSize ∧
        w = ⟨p, (coverageOf readings p).distinctTs, (summaryOf readings).gridSize,
          (summaryOf readings).gridSize - (coverageOf readings p).distinctTs⟩ := by
  have hmatched : (participants.map normalizeParticipant).filter
      (· ∈ (summaryOf readings).allEans) = participants := by
    rw [List.map_congr_left htrimmed, List.map_id', List.filter_eq_self]
    exact fun p hp => decide_eq_true (mem_allEans.mpr (h.listed p hp))
  have hwarnings : (evaluate (summaryOf readings) participants iterations).warnings.getD [] =
      incompleteMeters (summaryOf readings) participants := by
    unfold evaluate
    simp only [List.isEmpty_iff, summaryOf_eans_ne_nil h.readings_ne_nil, if_false, hmatched]
    split_ifs with hnone
    · exact hnone.symm
    · rfl
  rw [hwarnings, incompleteMeters, CrmDataSummary.incomplete]
  simp only [List.mem_map, List.mem_filter, decide_eq_true_eq, summaryOf]
  constructor
  · rintro ⟨e, ⟨⟨⟨ean, -, rfl⟩, hshort⟩, hp⟩, rfl⟩
    exact ⟨ean, hp, of_decide_eq_true hshort, rfl⟩
  · rintro ⟨p, hp, hshort, rfl⟩
    refine ⟨coverageOf readings p, ⟨⟨⟨p, ?_, rfl⟩, decide_eq_true hshort⟩, hp⟩, rfl⟩
    exact (mem_distinctEans readings).mpr (h.listed p hp)

theorem counted_grid (h : Asked readings participants)
    (htrimmed : ∀ p ∈ participants, normalizeParticipant p = p) (iterations : Nat) :
    Counted readings participants iterations (grid (readings.map coalesce)) where
  columns := length_grid_coalesce
  missing p hp w hw hean := by
    obtain ⟨p', -, -, rfl⟩ := (mem_warnings h htrimmed iterations).mp hw
    obtain rfl : p' = p := hean
    exact (length_gapsOf p').symm
  warned p hp := by
    have hlength : (gapsOf readings (grid (readings.map coalesce)) p).length =
        (summaryOf readings).gridSize - (coverageOf readings p).distinctTs := length_gapsOf p
    constructor
    · rintro ⟨w, hw, hean⟩
      obtain ⟨p', -, hshort, rfl⟩ := (mem_warnings h htrimmed iterations).mp hw
      obtain rfl : p' = p := hean
      apply List.length_pos_iff.mp
      omega
    · intro hgap
      refine ⟨_, (mem_warnings h htrimmed iterations).mpr ⟨p, hp, ?_, rfl⟩, rfl⟩
      have hpos := List.length_pos_iff.mpr hgap
      omega

variable {rows : List (ConsumptionRow F)}

/-- The matrices that rows of the readings, in their order, pivot and load into. -/
def layoutOf (readings : List (MeterConsumption F)) (participants : List String)
    (rows : List (ConsumptionRow F)) : SimulationRawData F :=
  laidOut participants (grid (readings.map coalesce)) (readingAt (readings.map coalesce))
    (injectionAt rows)

/-- The injections of an instant are added up as they are. -/
theorem injectionAt_of_finite (hrows : ∀ r ∈ rows, isFinite r.injGross = true) {instant : Int}
    (hsum : isFinite (injectedAt rows instant) = true) :
    injectionAt rows instant = injectedAt rows instant := by
  have hnumbers : ((rows.filter (·.timestamp = instant)).map (·.injGross)).filter (!isNaN ·) =
      (rows.filter (·.timestamp = instant)).map (·.injGross) := by
    refine List.filter_eq_self.mpr fun x hx => ?_
    obtain ⟨r, hr, rfl⟩ := List.mem_map.mp hx
    rw [isNaN_of_finite _ (hrows r (List.mem_of_mem_filter hr))]
    rfl
  rw [injectionAt, hnumbers]
  exact fillna_of_finite hsum

theorem pivotsTo_layoutOf (h : Asked readings participants)
    (hrows : rows.Perm (readings.map coalesce))
    (hsums : ∀ r ∈ rows, isFinite (injectedAt rows r.timestamp) = true) :
    PivotsTo rows participants (layoutOf readings participants rows) := by
  have hpivot : Pivotable rows participants :=
    { nonempty := by
        obtain ⟨r, rest, hreadings⟩ := List.exists_cons_of_ne_nil h.readings_ne_nil
        refine List.ne_nil_of_mem (hrows.mem_iff.mpr (List.mem_map_of_mem (a := r) ?_))
        rw [hreadings]
        exact List.mem_cons_self
      requested := h.some
      reserved := h.reserved
      unique := (pairs_nodup_iff hrows).mpr h.unique
      present := fun p hp => (mem_rows_ean hrows).mpr (h.listed p hp) }
  have hload := pivotsTo_laidOut hpivot h.distinct
    (fun r hr => (h.finite.rows hrows r hr).1) fun r hr => by
      rw [injectionAt_of_finite (fun r hr => (h.finite.rows hrows r hr).2) (hsums r hr)]
      exact hsums r hr
  rw [← readingAt_perm ((hrows.map place).nodup_iff.mpr (place_nodup h.unique)) hrows,
    ← grid_perm hrows] at hload
  exact hload

theorem faithful_layoutOf (h : Asked readings participants)
    (hrows : rows.Perm (readings.map coalesce))
    (hsums : ∀ r ∈ rows, isFinite (injectedAt rows r.timestamp) = true) :
    Faithful readings rows participants (grid (readings.map coalesce))
      (layoutOf readings participants rows) where
  chronological := grid_strict _
  complete _ := mem_grid_coalesce
  names := rfl
  consumptionShape := by simp [layoutOf, laidOut, rawDataOf]
  productionShape := rfl
  reading i p t instant hp ht r hr hean htime := by
    have hfinite := (h.finite.rows (.refl _) _ (List.mem_map_of_mem (f := coalesce) hr)).1
    rw [layoutOf, laidOut_consumption hp ht, ← hean, ← htime]
    exact (readingAt_of_mem (place_nodup h.unique) (List.mem_map_of_mem hr)).trans
      (fillna_of_finite hfinite)
  gap i p t instant hp ht hgap := by
    rw [layoutOf, laidOut_consumption hp ht]
    refine readingAt_of_gap fun row hrow => ?_
    obtain ⟨r, hr, rfl⟩ := List.mem_map.mp hrow
    exact hgap r hr
  injection i hi t instant ht := by
    rw [layoutOf, laidOut_production hi ht]
    obtain ⟨r, hr, rfl⟩ := mem_grid_coalesce.mp (List.mem_of_getElem? ht)
    have hrow := hsums (coalesce r) (hrows.mem_iff.mpr (List.mem_map_of_mem hr))
    exact injectionAt_of_finite (fun r hr => (h.finite.rows hrows r hr).2) hrow

end Places

/-! ## The layout against the aggregates -/

section Exact

/-- The rows of the matrices sum to the summary's totals. -/
structure Tallies (readings : List (MeterConsumption ℚ)) (participants : List String)
    (raw : SimulationRawData ℚ) : Prop where
  consumption : ∀ i p, participants[i]? = some p →
    ∑ t ∈ Finset.range raw.C.cols, raw.C.at i t = (coverageOf readings p).consumptionKwh
  production : ∀ i < participants.length,
    ∑ t ∈ Finset.range raw.VA.cols, raw.VA.at i t = (summaryOf readings).totalInjectionKwh

variable {readings : List (MeterConsumption ℚ)} {participants : List String}

/-- A participant's entry is the group of its readings at that instant. -/
theorem readingAt_coalesce (hunique : (readings.map fun r => (r.timestamp, r.ean)).Nodup)
    (p : String) :
    readingAt (readings.map coalesce) p =
      groupSum (·.timestamp) (fun r => r.gross.getD 0) (readingsOf readings p) := by
  funext instant
  by_cases hr : ∃ r ∈ readings, r.ean = p ∧ r.timestamp = instant
  · obtain ⟨r, hr, rfl, rfl⟩ := hr
    rw [groupSum_of_unique _ _ (nodup_group hunique r.ean) (mem_readingsOf.mpr ⟨hr, rfl⟩)]
    exact readingAt_of_mem (place_nodup hunique) (List.mem_map_of_mem hr)
  · push Not at hr
    rw [groupSum_of_notMem]
    · refine readingAt_of_gap fun row hrow => ?_
      obtain ⟨r, hmem, rfl⟩ := List.mem_map.mp hrow
      exact fun heq => hr r hmem heq.1 heq.2
    · intro r hmem
      exact hr r (mem_readingsOf.mp hmem).1 (mem_readingsOf.mp hmem).2

/-- The injections of an instant are those of the readings' group, in any order. -/
theorem injectionAt_rat {rows : List (ConsumptionRow ℚ)}
    (hrows : rows.Perm (readings.map coalesce)) :
    injectionAt rows = groupSum (·.timestamp) (fun r => r.injGross.getD 0) readings := by
  funext instant
  rw [injectionAt_of_finite (fun _ _ => rfl) rfl, injectedAt, sumBy_rat,
    ((hrows.filter _).map _).sum_eq, List.filter_map, List.map_map]
  rfl

/-- SQL's sum, which skips nulls, is the sum of the coalesced values. -/
theorem sum_filterMap {α : Type} (l : List α) (f : α → Option ℚ) :
    (l.filterMap f).sum = (l.map fun a => (f a).getD 0).sum := by
  induction l with
  | nil => rfl
  | cons a l ih => cases h : f a <;> simp [h, ih]

/-- A row of a matrix that is a function of the instant. -/
theorem sum_row {m : Mat ℚ} {i : Nat} {instants : List Int} {f : Int → ℚ}
    (h : ∀ (t : Nat) instant, instants[t]? = some instant → m.at i t = f instant) :
    ∑ t ∈ Finset.range instants.length, m.at i t = (instants.map f).sum := by
  have hrow : ∀ t : Fin instants.length, m.at i t = f (instants.get t) :=
    fun t => h t _ (List.getElem?_eq_getElem t.isLt)
  rw [Finset.sum_range, Finset.sum_congr rfl fun t _ => hrow t, ← List.sum_ofFn]
  congr 1
  exact List.map_ofFn.symm.trans (congrArg (List.map f) (List.ofFn_get _))

/-- The injections of the meters add up to those of the instants. -/
theorem totalInjection_eq :
    (summaryOf readings).totalInjectionKwh = (readings.map fun r => r.injGross.getD 0).sum := by
  have heans : (distinctEans readings).Nodup :=
    (List.perm_insertionSort _ _).nodup_iff.mpr (List.nodup_dedup _)
  rw [← sum_groups (·.ean) (fun r => r.injGross.getD 0) heans
    fun r hr => (mem_distinctEans readings).mpr ⟨r, hr, rfl⟩]
  simp only [CrmDataSummary.totalInjectionKwh, summaryOf, List.map_map, sumBy_rat]
  refine congrArg List.sum (List.map_congr_left fun ean _ => ?_)
  exact sum_filterMap _ _

/-- The matrices of the readings, which any order of them gives. -/
def laidOutReadings (readings : List (MeterConsumption ℚ)) (participants : List String) :
    SimulationRawData ℚ :=
  layoutOf readings participants (readings.map coalesce)

theorem pivotsTo_laidOutReadings (h : Asked readings participants)
    {rows : List (ConsumptionRow ℚ)} (hrows : rows.Perm (readings.map coalesce)) :
    PivotsTo rows participants (laidOutReadings readings participants) := by
  have hload := pivotsTo_layoutOf h hrows fun _ _ => rfl
  rw [layoutOf, injectionAt_rat hrows, ← injectionAt_rat (.refl _)] at hload
  exact hload

theorem tallies_laidOutReadings (h : Asked readings participants) :
    Tallies readings participants (laidOutReadings readings participants) where
  consumption i p hp := by
    have hrow : ∀ (t : Nat) instant, (grid (readings.map coalesce))[t]? = some instant →
        (laidOutReadings readings participants).C.at i t =
          readingAt (readings.map coalesce) p instant :=
      fun t instant ht => laidOut_consumption hp ht
    refine (sum_row hrow).trans ?_
    rw [readingAt_coalesce h.unique, sum_groups _ _ (grid_nodup _)]
    · exact (sum_filterMap _ _).symm
    · exact fun r hr => mem_grid_coalesce.mpr ⟨r, (mem_readingsOf.mp hr).1, rfl⟩
  production i hi := by
    have hrow : ∀ (t : Nat) instant, (grid (readings.map coalesce))[t]? = some instant →
        (laidOutReadings readings participants).VA.at i t =
          injectionAt (readings.map coalesce) instant :=
      fun t instant ht => laidOut_production hi ht
    refine (sum_row hrow).trans ?_
    rw [injectionAt_rat (.refl _), sum_groups _ _ (grid_nodup _), totalInjection_eq]
    exact fun r hr => mem_grid_coalesce.mpr ⟨r, hr, rfl⟩

end Exact

/-- What is pivoted and loaded is the readings, each in its place, counted as the
pre-flight counts them, and the same consumption for any order of the readings. Over
exact arithmetic the injections are the same too, and the rows sum to the summary's
totals. -/
theorem pivot_faithful :
    (∀ (F : Type) [PyFloat F] (readings : List (MeterConsumption F)) (participants : List String)
        (iterations : Nat), Asked readings participants →
      (∀ p ∈ participants, normalizeParticipant p = p) →
      ∃ instants C, Counted readings participants iterations instants ∧
        ∀ rows, rows.Perm (readings.map coalesce) →
          (∀ r ∈ rows, isFinite (injectedAt rows r.timestamp) = true) →
          ∃ raw, raw.C = C ∧ PivotsTo rows participants raw ∧
            Faithful readings rows participants instants raw) ∧
      ∀ (readings : List (MeterConsumption ℚ)) (participants : List String),
        Asked readings participants →
        ∃ raw, (∀ rows, rows.Perm (readings.map coalesce) → PivotsTo rows participants raw) ∧
          Tallies readings participants raw := by
  constructor
  · intro F _ readings participants iterations h htrimmed
    refine ⟨_, (layoutOf readings participants []).C, counted_grid h htrimmed iterations, ?_⟩
    intro rows hrows hsums
    -- the consumption does not depend on the rows' order
    exact ⟨layoutOf readings participants rows, rfl, pivotsTo_layoutOf h hrows hsums,
      faithful_layoutOf h hrows hsums⟩
  · intro readings participants h
    exact ⟨_, fun rows hrows => pivotsTo_laidOutReadings h hrows, tallies_laidOutReadings h⟩

/-- Two meters, each silent when the other is not. -/
def gappedMeters : List (MeterConsumption ℚ) :=
  [⟨0, " A", some 1, none⟩, ⟨1, "B", some 1, some 1⟩]

theorem asked_gapped {p : String} (hp : p = " A" ∨ p = "B") : Asked gappedMeters [p] := by
  have hfinite : FiniteReadings gappedMeters := by unfold FiniteReadings; decide +kernel
  rcases hp with rfl | rfl <;>
  exact asked_one hfinite (by decide +kernel) (by decide +kernel) (by decide +kernel)

theorem pivot_faithful_gapped :
    (∃ instants raw, Counted gappedMeters ["B"] 1 instants ∧
        PivotsTo (gappedMeters.map coalesce) ["B"] raw ∧
        Faithful gappedMeters (gappedMeters.map coalesce) ["B"] instants raw) ∧
      ∃ raw, (∀ rows, rows.Perm (gappedMeters.map coalesce) → PivotsTo rows ["B"] raw) ∧
        Tallies gappedMeters ["B"] raw := by
  obtain ⟨hany, hexact⟩ := pivot_faithful
  obtain ⟨instants, C, hcounted, hpivots⟩ :=
    hany ℚ gappedMeters ["B"] 1 (asked_gapped (.inr rfl)) (by decide +kernel)
  obtain ⟨raw, -, hpivot, hfaithful⟩ := hpivots _ (.refl _) fun _ _ => rfl
  exact ⟨⟨instants, raw, hcounted, hpivot, hfaithful⟩,
    hexact gappedMeters ["B"] (asked_gapped (.inr rfl))⟩

/-- Two meters whose injections of one instant are past the range together. -/
def overflowingMeters : List (MeterConsumption RangedRat) :=
  [⟨0, "A", some 1, some ⟨some (2 ^ 1023)⟩⟩, ⟨0, "B", some 1, some ⟨some (2 ^ 1023)⟩⟩]

/-- Half a unit in the last place of 1. -/
def smallReading : binary64.Number := .of binary64 (2⁻¹ ^ 53)

/-- A meter whose readings come latest first, the latest one large. -/
def roundedMeter : List (MeterConsumption binary64.Number) :=
  [⟨2, "A", some 1, some 1⟩, ⟨1, "A", some smallReading, some smallReading⟩,
    ⟨0, "A", some smallReading, some smallReading⟩]

/-- Three meters at one instant, the first injection large. -/
def roundedInstant : List (MeterConsumption binary64.Number) :=
  [⟨0, "A", some 1, some 1⟩, ⟨0, "B", none, some smallReading⟩, ⟨0, "C", none, some smallReading⟩]

/-- The gap of a participant written with a blank is not reported; injections that
are finite each need not add up to a finite number; a rounded sum over the readings is
not the rounded sum over the row they are laid out in; and the rounded injections of one
instant depend on the order of its readings. -/
theorem pivot_unreported_or_refused :
    (Asked gappedMeters [" A"] ∧ ∀ instants raw,
        Faithful gappedMeters (gappedMeters.map coalesce) [" A"] instants raw →
          ¬ Counted gappedMeters [" A"] 1 instants) ∧
      (Asked overflowingMeters ["A"] ∧
        ∀ raw, ¬ PivotsTo (overflowingMeters.map coalesce) ["A"] raw) ∧
      (Asked roundedMeter ["A"] ∧
        ∀ raw, PivotsTo (roundedMeter.map coalesce) ["A"] raw →
          sumBy .series ((List.range raw.C.cols).map (raw.C.at 0)) ≠
              (coverageOf roundedMeter "A").consumptionKwh ∧
            sumBy .series ((List.range raw.VA.cols).map (raw.VA.at 0)) ≠
              (summaryOf roundedMeter).totalInjectionKwh) ∧
      Asked roundedInstant ["A"] ∧
        ∀ raw raw', PivotsTo (roundedInstant.map coalesce) ["A"] raw →
          PivotsTo (roundedInstant.map coalesce).reverse ["A"] raw' →
            raw.VA.at 0 0 ≠ raw'.VA.at 0 0 := by
  refine ⟨⟨asked_gapped (.inl rfl), fun instants raw hfaithful hcounted => ?_⟩, ⟨?_, ?_⟩,
    ⟨?_, ?_⟩, ?_, ?_⟩
  · -- the pre-flight looks for "A", which has no readings
    have hone : (1 : Int) ∈ gapsOf gappedMeters instants " A" :=
      List.mem_filter.mpr ⟨(hfaithful.complete 1).mpr (by decide +kernel), by decide +kernel⟩
    obtain ⟨w, hw, -⟩ := (hcounted.warned " A" List.mem_cons_self).mpr (List.ne_nil_of_mem hone)
    have hnone : (evaluate (summaryOf gappedMeters) [" A"] 1).warnings = none := by decide +kernel
    rw [hnone] at hw
    cases hw
  · have hfinite : FiniteReadings overflowingMeters := by unfold FiniteReadings; decide +kernel
    exact asked_one hfinite (by decide +kernel) (by decide +kernel) (by decide +kernel)
  · rintro raw ⟨frame, hframe, hload⟩
    obtain ⟨hpivot, rfl⟩ := buildDataframe_ok_iff.mp hframe
    obtain ⟨⟨-, hfinite⟩, -⟩ := (load_pivotFrame_iff hpivot.requested hpivot.reserved).mp hload
    have hinfinite : isFinite (injectionSeries (overflowingMeters.map coalesce) ⟨0, by decide⟩) =
        false := by decide +kernel
    rw [hfinite] at hinfinite
    cases hinfinite
  · exact asked_one (fun r _ => ⟨fun _ _ => rfl, fun _ _ => rfl⟩) (by decide +kernel)
      (by decide +kernel) (by decide +kernel)
  · rintro raw ⟨frame, hframe, hload⟩
    obtain ⟨hpivot, rfl⟩ := buildDataframe_ok_iff.mp hframe
    obtain ⟨-, rfl⟩ := (load_pivotFrame_iff hpivot.requested hpivot.reserved).mp hload
    decide +kernel
  · exact asked_one (fun r _ => ⟨fun _ _ => rfl, fun _ _ => rfl⟩) (by decide +kernel)
      (by decide +kernel) (by decide +kernel)
  · rintro raw raw' ⟨frame, hframe, hload⟩ ⟨frame', hframe', hload'⟩
    obtain ⟨hpivot, rfl⟩ := buildDataframe_ok_iff.mp hframe
    obtain ⟨hpivot', rfl⟩ := buildDataframe_ok_iff.mp hframe'
    obtain ⟨-, rfl⟩ := (load_pivotFrame_iff hpivot.requested hpivot.reserved).mp hload
    obtain ⟨-, rfl⟩ := (load_pivotFrame_iff hpivot'.requested hpivot'.reserved).mp hload'
    decide +kernel

end SimulationKey.Theorems.Pivot
