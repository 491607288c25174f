import SimulationKey.Api.OneCommunity
import SimulationKey.Kit.Purge
import SimulationKey.Theorems.Isolation

/-!
# Histories of one community

What a community is answered over a whole history, among requests of any others
and changes of any others' data, it is answered by a service that holds its data
alone and serves nobody else.

* **one request** — on the community's part of the stores it may be answered the
  same, and leaves the community's part of what it leaves (`responds_only`);
* **histories** — the others' events leave that part, so theirs can be struck out
  (`unwinding_serves`).
-/

namespace SimulationKey.Theorems.Noninterference

open Kit Kit.Prog Isolation

variable {F B L : Type} [PyFloat F]

/-! ## One request -/

section OneRequest

variable {c : Nat} {s : Stores F B}

omit [PyFloat F] in
theorem agreeOn_only (hs : s.WellFormed) : AgreeOn c s (s.only c) where
  simulations run hc := by simp [Stores.only, hc]
  crm :=
    { allocationKeys := fun row hc => by simp [Stores.only, CrmTables.only, hc]
      sharingOperations := fun row hc => by simp [Stores.only, CrmTables.only, hc]
      meterConsumption := by
        simp only [Stores.only, CrmTables.only, List.filter_filter, Bool.and_self]
        exact .refl _ }
  sources run hrun hc key hkey := by
    have hcommunity : key.community = c := ((hs.owned run hrun).source key hkey).trans hc
    exact (if_pos hcommunity).symm
  results run hrun hc key hkey := by
    have hcommunity : key.community = c := ((hs.owned run hrun).result key hkey).trans hc
    exact (if_pos hcommunity).symm

variable (api : ApiContext F B L)

theorem conducts_only {α : Type} {own : Nat} {faults : List Choice} {program : Act F B α}
    {default : RequestError} {body : α → Response F} {r : Response F} {s' : Stores F B}
    {S : InRequest F B → Prop}
    (hprogram : Mimics (requestMay api.midnight own) (requestMay api.midnight own)
      (fun t t' => S t ∧ t' = t.only c) Eq (withRequestSessions program) s.begin
      (withRequestSessions program) (s.begin.only c))
    (h : Conducts api own faults program default body s r s') :
    Conducts api own faults program default body (s.only c) r (s'.only c) := by
  obtain ⟨outcome, t, hrun, rfl, rfl⟩ := h
  obtain ⟨outcome', t', hrun', houtcome, -, rfl⟩ := hprogram faults outcome t hrun
  obtain rfl := houtcome.eq
  exact ⟨outcome', t.only c, hrun', rfl, rfl⟩

/-- A program that keeps within its community, from the start of a request. -/
theorem conducts_projects {α : Type} {own : Nat} {faults : List Choice} {program : Act F B α}
    {default : RequestError} {body : α → Response F} {r : Response F} {s' : Stores F B}
    (hs : s.WellFormed)
    (hmine : ∀ run ∈ s.simulations, run.simulation.id = own → run.simulation.idCommunity = c)
    (hprogram : Within c own s s.begin →
      Projects api.midnight c own s (fun _ => True) program s.begin)
    (h : Conducts api own faults program default body s r s') :
    Conducts api own faults program default body (s.only c) r (s'.only c) :=
  conducts_only api ((projects_withRequestSessions (hprogram (within_begin hs hmine))).mono
    (fun _ _ hS => hS) fun _ _ hV => hV.1.symm) h

/-- Closing a session. -/
theorem only_close {midnight : Nat → Int} {own : Nat} {o : Op F B}
    (ho : o = .closeCrm .request ∨ o = .closeLocal .request) {choice : Choice}
    {t v : InRequest F B} {r : Except Exn o.Resp} (hmay : requestMay midnight own o choice t r v) :
    requestMay midnight own o choice (t.only c) r (v.only c) ∧ v.stores = t.stores := by
  have hanswer : ∀ r, requestAnswer midnight own o t r v →
      requestAnswer midnight own o (t.only c) r (v.only c) ∧ v.stores = t.stores := by
    intro r h
    rcases ho with rfl | rfl
    · obtain ⟨rfl, rfl⟩ := h
      exact ⟨⟨rfl, rfl⟩, rfl⟩
    · obtain ⟨rfl, rfl⟩ := h
      exact ⟨⟨rfl, rfl⟩, rfl⟩
  cases choice with
  | ok => exact hanswer r hmay
  | fail e =>
      obtain ⟨hraise, hopen, rfl, rfl⟩ := hmay
      exact ⟨⟨hraise, hopen, rfl, rfl⟩, rfl⟩
  | lost e =>
      obtain ⟨hraise, rfl, r', hgone⟩ := hmay
      obtain ⟨hanswer', hstores⟩ := hanswer r' hgone
      exact ⟨⟨hraise, rfl, r', hanswer'⟩, hstores⟩
  | swallowed =>
      obtain ⟨a, hswallow, rfl, rfl⟩ := hmay
      exact ⟨⟨a, hswallow, rfl, rfl⟩, rfl⟩

/-- A program that stores nothing, with its sessions. -/
theorem mimics_reading {α : Type} {midnight : Nat → Int} {own : Nat} {p : Act F B α}
    (hp : Mimics (requestMay midnight own) (requestMay midnight own)
      (fun t t' => t.stores = s ∧ t' = t.only c) Eq p s.begin p (s.begin.only c)) :
    Mimics (requestMay midnight own) (requestMay midnight own)
      (fun t t' => t.stores = s ∧ t' = t.only c) Eq (withRequestSessions p) s.begin
      (withRequestSessions p) (s.begin.only c) := by
  have hclose : ∀ o : Op F B, o = .closeCrm .request ∨ o = .closeLocal .request →
      ∀ choice (t t' : InRequest F B) r v, (t.stores = s ∧ t' = t.only c) →
        requestMay midnight own o choice t r v →
        ∃ v', requestMay midnight own o choice t' r v' ∧ v.stores = s ∧ v' = v.only c := by
    rintro o ho choice t t' r v ⟨hstores, rfl⟩ hmay
    obtain ⟨hmay', hkept⟩ := only_close (c := c) ho hmay
    exact ⟨v.only c, hmay', hkept.trans hstores, rfl⟩
  refine .ensuring (.ensuring hp fun t t' ht => ?_) fun t t' ht => ?_
  · exact .of_allOps (.perform (hclose _ (.inl rfl))) ht
  · exact .of_allOps (.perform (hclose _ (.inr rfl))) ht

/-- The preview, whose statements are passed the community. -/
theorem mimics_preview (hs : s.WellFormed) (midnight : Nat → Int)
    (idKey operation periodStart periodEnd : Nat) :
    Mimics (requestMay midnight 0) (requestMay midnight 0)
      (fun t t' => t.stores = s ∧ t' = t.only c) Eq
      (previewCrmData idKey operation periodStart periodEnd c : Act F B (Preflight F)) s.begin
      (previewCrmData idKey operation periodStart periodEnd c) (s.begin.only c) := by
  have hcrm := (agreeOn_only (c := c) hs).crm.sameFor hs.only.allocationKeys midnight
  have hscoped : ∀ o : Op F B, o.Scoped c → ∀ choice (t t' : InRequest F B) r v,
      (t.stores = s ∧ t' = t.only c) → requestMay midnight 0 o choice t r v →
      ∃ v', requestMay midnight 0 o choice t' r v' ∧ v.stores = s ∧ v' = v.only c := by
    rintro o ho choice t t' r v ⟨rfl, rfl⟩ hmay
    obtain ⟨rfl, hmay'⟩ : v = t ∧ requestMay midnight 0 o choice (t.only c) r (t.only c) :=
      scoped_step ho hcrm hmay
    exact ⟨v.only c, hmay', rfl, rfl⟩
  exact .of_allOps (allOps_previewCrmData _ _ _ _ _ (hscoped _ rfl) (hscoped _ rfl)
    (hscoped _ rfl)) ⟨rfl, rfl⟩

/-- A deletion that finds no row of its community. -/
theorem mimics_deleteNothing {midnight : Nat → Int} {id : Nat}
    (hnone : findSimulation (some c) s.simulations id = none) :
    Mimics (requestMay midnight id) (requestMay midnight id)
      (fun t t' => t.stores = s ∧ t' = t.only c) Eq (deleteSimulation id c : Act F B Unit) s.begin
      (deleteSimulation id c) (s.begin.only c) := by
  have hrow : Mimics (requestMay midnight id) (requestMay midnight id)
      (fun t t' => t.stores = s ∧ t' = t.only c) (fun row row' => row = none ∧ row' = none)
      (await (.getSimulationRow .request c) : Act F B _) s.begin
      (await (.getSimulationRow .request c)) (s.begin.only c) := by
    refine .perform (Op.getSimulationRow .request c) (Op.getSimulationRow .request c)
      fun choice r v hmay => ?_
    cases choice with
    | ok =>
        obtain ⟨rfl, rfl⟩ := hmay
        have hfound : findSimulation (some c) (s.begin.visible id .request) id = none := hnone
        have hfound' : findSimulation (some c) ((s.begin.only c).visible id .request) id = none :=
          (findSimulation_only s.simulations id).trans hnone
        refine ⟨_, _, ⟨rfl, rfl⟩, ?_, rfl, rfl⟩
        rw [hfound, hfound']
        exact .ok ⟨rfl, rfl⟩
    | fail e =>
        obtain ⟨hraise, hopen, rfl, rfl⟩ := hmay
        exact ⟨.error e, _, ⟨hraise, hopen, rfl, rfl⟩, .error e, rfl, rfl⟩
    | lost e =>
        obtain ⟨hraise, rfl, r', -, rfl⟩ := hmay
        exact ⟨.error e, _, ⟨hraise, rfl, _, rfl, rfl⟩, .error e, rfl, rfl⟩
    | swallowed =>
        obtain ⟨a, hswallow, -⟩ := hmay
        cases hswallow
  refine .bind hrow (fun _ _ hS => hS) fun row row' t t' hnothing ht => ?_
  obtain ⟨rfl, rfl⟩ := hnothing
  exact .ret ht (.error _)

/-- A request of the community on its part of the stores alone. -/
theorem responds_only {request : Request B} {faults : List Choice} (hs : s.WellFormed)
    {r : Response F} {s' : Stores F B} (h : Responds api (some c) faults request s r s') :
    Responds api (some c) faults request (s.only c) r (s'.only c) := by
  have hagree := agreeOn_only (c := c) hs
  have hids := hs.simulations
  have hids' := (hs.only (c := c)).simulations
  cases request with
  | getSimulations page pageSize params =>
      obtain rfl : s' = s := h.1
      exact reads_same api (mimics_readSimulations hagree hids hids' _ _ _ _) h
  | getSimulation id =>
      obtain rfl : s' = s := h.1
      exact reads_same api (mimics_readSimulation hagree hids hids' _ id) h
  | getTimeseries id maxPoints =>
      cases maxPoints with
      | none =>
          obtain rfl : s' = s := h.1
          exact reads_same api (mimics_streamTimeseries hagree hids hids' _ id) h
      | some maxPoints =>
          obtain rfl : s' = s := h.1
          exact reads_same api
            (mimics_sampleTimeseries hagree hids hids' _ api.floatOf api.intOf id maxPoints) h
  | getCrmDataPreview locale idKey operation periodStart periodEnd =>
      exact conducts_only api (mimics_reading (mimics_preview hs _ _ _ _ _)) h
  | startSimulation req file =>
      obtain ⟨newId, uuid, hunused, hconducts⟩ := h
      exact ⟨newId, uuid, hunused.only, conducts_projects api hs
        (fun run hrun hid => absurd hid (hunused run hrun))
        (projects_startSimulation api.lib newId uuid req file) hconducts⟩
  | startSimulationFromCrm req =>
      obtain ⟨newId, hunused, hconducts⟩ := h
      exact ⟨newId, hunused.only, conducts_projects api hs
        (fun run hrun hid => absurd hid (hunused run hrun))
        (projects_startSimulationFromCrm newId req) hconducts⟩
  | deleteSimulation id =>
      by_cases hmine : ∀ run ∈ s.simulations, run.simulation.id = id →
          run.simulation.idCommunity = c
      · exact conducts_projects api hs hmine (projects_deleteSimulation id) h
      · -- the id is another community's
        push Not at hmine
        obtain ⟨run, hrun, rfl, hother⟩ := hmine
        have hnone := findSimulation_eq_none hids hrun hother
        exact conducts_only api (mimics_reading (mimics_deleteNothing hnone)) h

end OneRequest

/-! ## Histories -/

omit [PyFloat F] in
/-- What is the same elsewhere is the same part for every other community. -/
theorem only_of_sameElsewhere {c d : Nat} (hne : c ≠ d) {s s' : Stores F B}
    (h : s.SameElsewhere d s') : s'.only c = s.only c := by
  have hrows : ∀ {γ : Type} (community : γ → Nat) (rows : List γ),
      rows.filter (community · = c) = (rows.filter (community · ≠ d)).filter (community · = c) := by
    intro γ community rows
    rw [List.filter_filter]
    refine List.filter_congr fun row _ => ?_
    by_cases hc : community row = c <;> simp [hc, hne]
  have hsources : ∀ key : SourceKey, (if key.community = c then s'.sources key else none) =
      if key.community = c then s.sources key else none := by
    intro key
    by_cases hc : key.community = c
    · rw [if_pos hc, if_pos hc, h.sources key (hc ▸ hne)]
    · rw [if_neg hc, if_neg hc]
  have hresults : ∀ key : ResultKey, (if key.community = c then s'.results key else none) =
      if key.community = c then s.results key else none := by
    intro key
    by_cases hc : key.community = c
    · rw [if_pos hc, if_pos hc, h.results key (hc ▸ hne)]
    · rw [if_neg hc, if_neg hc]
  simp only [Stores.only, h.crm, hsources, hresults]
  rw [hrows (·.simulation.idCommunity) s'.simulations, h.simulations,
    ← hrows (·.simulation.idCommunity) s.simulations, hrows (·.idCommunity) s'.auditLog, h.auditLog,
    ← hrows (·.idCommunity) s.auditLog]

/-- What happens to the stores: a request, as it is answered under its faults, or a
change of one community's data by others, as the worker's or the CRM's. -/
inductive Event (F B : Type) where
  | request (community : Option Nat) (faults : List Choice) (request : Request B)
      (response : Response F)
  | outside (community : Nat)

/-- The event is of the community. -/
def Event.isOf (c : Nat) : Event F B → Bool
  | request community .. => community = some c
  | outside community => community = c

def Serves (api : ApiContext F B L) (s : Stores F B) : Event F B → Stores F B → Prop
  | .request community faults request response, s' =>
    Responds api community faults request s response s'
  | .outside community, s' => s'.WellFormed ∧ ∀ c, c ≠ community → s'.only c = s.only c

/-- What an outcome of the worker makes of the stores: its row and the trees under it,
the result objects and the audit log. -/
def withOutcome (s : Stores F B) (id : Nat) (values : RowValues)
    (trees : List (SimulationKeyResultModel F)) (results : ResultKey → Option (List UInt8))
    (entries : List AuditEntry) : Stores F B :=
  { s with
    simulations := s.simulations.map fun run =>
      if run.simulation.id = id then ⟨run.simulation.set values, trees⟩ else run
    results := results
    auditLog := s.auditLog ++ entries }

/-- The worker's outcomes are changes of one community's data. -/
theorem serves_outcome (api : ApiContext F B L) {s : Stores F B} (hs : s.WellFormed)
    {run : StoredSimulation F} (hrun : run ∈ s.simulations) {values : RowValues}
    (howned : (run.simulation.set values).Owned) (trees : List (SimulationKeyResultModel F))
    {results : ResultKey → Option (List UInt8)}
    (hresults : ∀ key, key.community ≠ run.simulation.idCommunity → results key = s.results key)
    {entries : List AuditEntry}
    (hentries : ∀ entry ∈ entries, entry.idCommunity = run.simulation.idCommunity) :
    Serves api s (.outside run.simulation.idCommunity)
      (withOutcome s run.simulation.id values trees results entries) := by
  have hid : ∀ other : StoredSimulation F, (if other.simulation.id = run.simulation.id then
      ⟨other.simulation.set values, trees⟩ else other : StoredSimulation F).simulation.id =
      other.simulation.id := fun other => by split <;> rfl
  -- the row of the outcome is the only one of its id
  have hone : ∀ other ∈ s.simulations, other.simulation.id = run.simulation.id → other = run :=
    fun other hother heq => List.inj_on_of_nodup_map hs.simulations hother hrun heq
  refine ⟨⟨?_, hs.allocationKeys, ?_⟩, fun c hc => only_of_sameElsewhere hc ?_⟩
  · simp only [withOutcome, List.map_map, Function.comp_def, hid]
    exact hs.simulations
  · intro settled hsettled
    obtain ⟨other, hother, rfl⟩ := List.mem_map.mp hsettled
    split_ifs with heq
    · obtain rfl := hone other hother heq
      exact howned
    · exact hs.owned other hother
  · refine ⟨?_, rfl, ?_, fun _ _ => rfl, hresults⟩
    · have hcommunity : ∀ other : StoredSimulation F,
          (if other.simulation.id = run.simulation.id then
            ⟨other.simulation.set values, trees⟩ else other :
              StoredSimulation F).simulation.idCommunity =
          other.simulation.idCommunity := fun other => by split <;> rfl
      simp only [withOutcome, List.filter_map, Function.comp_def, hcommunity]
      refine (List.map_congr_left fun other hother => if_neg fun heq => ?_).trans (List.map_id _)
      obtain ⟨hmem, hne⟩ := List.mem_filter.mp hother
      obtain rfl := hone other hmem heq
      simp at hne
    · show (s.auditLog ++ entries).filter _ = _
      have hnone : entries.filter (·.idCommunity ≠ run.simulation.idCommunity) = [] :=
        List.filter_eq_nil_iff.mpr fun entry hentry => by simp [hentries entry hentry]
      rw [List.filter_append, hnone, List.append_nil]

omit [PyFloat F] in
/-- There is nothing of another community in a community's part. -/
theorem only_only {c d : Nat} (hne : d ≠ c) (s s' : Stores F B) :
    (s.only c).only d = (s'.only c).only d := by
  have hnone : ∀ {γ : Type} (community : γ → Nat) (rows : List γ),
      (rows.filter (community · = c)).filter (community · = d) = [] := by
    intro γ community rows
    refine List.filter_eq_nil_iff.mpr fun row hrow => ?_
    have hc : community row = c := by simpa using (List.mem_filter.mp hrow).2
    simp [hc, hne.symm]
  have hkey : ∀ {δ : Type} (k : Nat) (a a' : Option δ), (if k = d then if k = c then a else none
      else none) = if k = d then if k = c then a' else none else none := by
    intro δ k a a'
    by_cases hd : k = d
    · simp [hd, hne]
    · simp [hd]
  simp only [Stores.only, CrmTables.only, hnone]
  congr 1
  · funext key
    exact hkey _ _ _
  · funext key
    exact hkey _ _ _

theorem unwinding_serves (api : ApiContext F B L) (c : Nat) :
    Unwinding (Serves api) (Serves api) Stores.WellFormed (Stores.only c) (Event.isOf c) where
  kept s e s' hs h := by
    cases e with
    | outside community => exact h.1
    | request community faults request response =>
        cases community with
        | none =>
            obtain rfl := (responds_unscoped h).2
            exact hs
        | some d => exact (responds_sameElsewhere api hs h).2
  own s e s' hs h hmine := by
    cases e with
    | outside community =>
        obtain rfl : community = c := of_decide_eq_true hmine
        exact ⟨h.1.only, fun d hd => only_only hd s' s⟩
    | request community faults request response =>
        obtain rfl : community = some c := of_decide_eq_true hmine
        exact responds_only api hs h
  others s e s' hs h hother := by
    cases e with
    | outside community => exact h.2 c fun heq => of_decide_eq_false hother heq.symm
    | request community faults request response =>
        have hne : community ≠ some c := of_decide_eq_false hother
        cases community with
        | none => rw [(responds_unscoped h).2]
        | some d =>
            have hcd : c ≠ d := fun heq => hne (by rw [heq])
            exact only_of_sameElsewhere hcd (responds_sameElsewhere api hs h).1

/-- Whatever the others do, a community's own events are a history of its data
alone, with the same answers. -/
theorem answered_alone (api : ApiContext F B L) (c : Nat) {s s' : Stores F B}
    {history : List (Event F B)} (hs : s.WellFormed) (h : Steps (Serves api) s history s') :
    Steps (Serves api) (s.only c) (history.filter (Event.isOf c)) (s'.only c) :=
  (unwinding_serves api c).purge hs h

/-- The run of the community 3, which has failed. -/
def failedRow : SimulationModel := smallRow.set (failureValues "invalid_data")

/-- It fails, another community asks for it, and its own. -/
def smallHistory : List (Event ℚ Unit) :=
  [.outside 3,
    .request (some 4) [.ok] (.getSimulation 1) (.refused (.service .simulationNotFound) 404),
    .request (some 3) [.ok] (.getSimulation 1) (.simulation (toSimulationDetail failedRow none))]

/-- The other's request struck out. -/
theorem answered_alone_small :
    ∃ s', Steps (Serves smallApi)
      ((smallTenancy none fun row hrow => by cases hrow).toStores.only 3)
      [.outside 3, .request (some 3) [.ok] (.getSimulation 1)
        (.simulation (toSimulationDetail failedRow none))] s' := by
  have hsmall : ∀ row ∈ (none : Option SimulationModel),
      row.id = 2 ∧ row.fileStorageKey = none ∧ row.resultStorageKey = none :=
    fun row hrow => by cases hrow
  have hs := (smallTenancy none hsmall).wellFormed
  have hmem : ⟨smallRow, []⟩ ∈ (smallTenancy none hsmall).simulations := List.mem_cons_self
  have hentry : ∀ entry ∈ [(⟨.failed "invalid_data", 1, 3⟩ : AuditEntry)],
      entry.idCommunity = 3 := fun entry hmem => by rw [List.mem_singleton.mp hmem]
  have hfails := serves_outcome smallApi hs hmem
    ((owned_outcomes (hs.owned _ hmem) 1).2 "invalid_data") [] (fun _ _ => rfl) hentry
  have hhistory : Steps (Serves smallApi) (smallTenancy none hsmall).toStores smallHistory _ :=
    .cons hfails (.cons ⟨rfl, .error (.refused (.service .simulationNotFound) 404),
      ⟨.ok, [], .ok none, (), rfl, rfl, rfl, rfl, rfl⟩, rfl⟩
      (.cons ⟨rfl, .ok (toSimulationDetail failedRow none),
        ⟨.ok, [], .ok (some (failedRow, none)), (), rfl, rfl, rfl, rfl, rfl⟩, rfl⟩ (.nil _)))
  exact ⟨_, answered_alone smallApi 3 hs hhistory⟩

end SimulationKey.Theorems.Noninterference
