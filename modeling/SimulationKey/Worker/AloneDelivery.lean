import SimulationKey.Worker.Alone

/-!
# How a delivery handled alone ends

The steps of `worker/dispatcher.py` one after the other, from a row that waits
for its outcome. What the data, the key and the solve give is pure
(`sourceData`, `resultOf`); each step either records a failure, goes on with
what they give, or raises a transient error.
-/

namespace SimulationKey

open Kit Kit.Prog

variable {F B L α : Type} {t : Nat} [PyFloat F]

/-! ## What the inputs give -/

/-- The readings of a period and their summary, unless the queries raise. -/
def periodReadings (w : World F B) (idCommunity idSharingOperation periodStart periodEnd : Nat) :
    Except String (List (MeterConsumption F) × CrmDataSummary F) := do
  let bounds ← sentBounds periodStart periodEnd
  let readings := w.crm.meterConsumption idCommunity idSharingOperation bounds.1 bounds.2
  let summary ← summarize readings
  pure (readings, summary)

/-- The row asks for readings that the CRM refuses to summarize. -/
def unreadable (w : World F B) (row : SimulationModel) : Bool :=
  match row.idSharingOperation, row.periodStart, row.periodEnd with
  | some idSharingOperation, some periodStart, some periodEnd =>
    (periodReadings w row.idCommunity idSharingOperation periodStart periodEnd).toOption.isNone
  | _, _, _ => false

/-- The data of an upload. -/
def uploadData (lib : Libraries F B L) (w : World F B) (row : SimulationModel)
    (consumerNames : List String) : Option (SimulationRawData F) :=
  match row.fileStorageKey, row.fileName with
  | some storageKey, some fileName =>
    (w.storage.sources storageKey).bind fun content =>
      (loadUpload lib content fileName (row.injectionName.getD "") consumerNames).toOption
  | _, _ => none

/-- The data of a period. -/
def periodData (w : World F B) (row : SimulationModel) (consumerNames : List String)
    (iterations : Nat) : Option (SimulationRawData F) :=
  match row.idSharingOperation, row.periodStart, row.periodEnd with
  | some idSharingOperation, some periodStart, some periodEnd =>
    (periodReadings w row.idCommunity idSharingOperation periodStart periodEnd).toOption.bind
      fun x => (loadCrm x.1 consumerNames iterations).toOption
  | _, _, _ => none

/-- The data of a row, as its source has it. -/
def sourceData (lib : Libraries F B L) (w : World F B) (row : SimulationModel)
    (keyInput : SimulationKeyInput F) : Option (SimulationRawData F) :=
  match row.source with
  | .crm => periodData w row (consumerNamesOf keyInput) keyInput.iterations.length
  | .file => uploadData lib w row (consumerNamesOf keyInput)

/-- The result of a key's run over the row's data, where there is one. -/
def resultOf (lib : Libraries F B L) (w : World F B) (row : SimulationModel)
    (key : AllocationKeyModel F) : Option (KeySimResult F) :=
  (sourceData lib w row (keyInputOf row.source key)).bind fun raw =>
    (solve (keyInputOf row.source key) raw).toOption

/-! ## Reading the CRM -/

variable {simulationId : Nat} {fault : Fault} {w : World F B} {row : SimulationModel}

/-- A transient error has been raised. -/
def Raised (r : Except Exn α) : Prop := ∃ text, r = .error (.transientError text)

/-- What a program's outcome is once its errors are transient. -/
def Transiently (value : Except String α) (r : Except Exn α) : Prop :=
  match value with
  | .ok a => r = .ok a
  | .error _ => Raised r

/-- The fault has been met where nothing wraps it. -/
def HitBare (w : World F B) (r : Except Exn α) (s : Lone F B) : Prop :=
  (∃ text, r = .error (.other text)) ∧ s.stage = .inputs ∧
    (∃ site, site ≠ .wrapped ∧ s.fault = .hit site) ∧ ∃ audit, s.world = { w with audit := audit }

/-- The reading of the inputs has been hit. -/
def HitReading (w : World F B) (r : Except Exn α) (s : Lone F B) : Prop :=
  Raised r ∧ s.fault = .hit .wrapped ∧ (∃ audit, s.world = { w with audit := audit }) ∨
    HitBare w r s

omit [PyFloat F] in
theorem HitReading.not_ok {a : α} {s : Lone F B} (h : HitReading w (.ok a) s) : False := by
  rcases h with ⟨⟨text, h⟩, -⟩ | ⟨⟨text, h⟩, -⟩ <;> cases h

omit [PyFloat F] in
/-- The exception goes on. -/
theorem HitReading.next {β : Type} {e : Exn} {s : Lone F B}
    (h : HitReading w (.error e : Except Exn α) s) :
    HitReading w (.error e : Except Exn β) s := by
  rcases h with ⟨⟨text, h⟩, hrest⟩ | ⟨⟨text, h⟩, hrest⟩
  · obtain rfl := Except.error.inj h
    exact Or.inl ⟨⟨text, rfl⟩, hrest⟩
  · obtain rfl := Except.error.inj h
    exact Or.inr ⟨⟨text, rfl⟩, hrest⟩

omit [PyFloat F] in
/-- What hits a read of the CRM is a database error. -/
theorem other_of_transient {o : Op F B} {e : Exn} (h : Stage.inputs.transient o e = true)
    (ho : ∀ key, o ≠ .download key) : ∃ text, e = .other text := by
  cases o with
  | download key => exact absurd rfl (ho key)
  | _ => cases e <;> first | exact ⟨_, rfl⟩ | cases h

/-- A session of the CRM, and what a read of it gives. -/
theorem always_readCrm {what : String} {body : Act F B α} (value : Except String α)
    (hbody : Always (May t) body { stage := .inputs, fault := fault, world := w } fun r s =>
      s.world = w ∧ s.stage = .inputs ∧
        (s.fault = .hit .wrapped ∧ (∃ text, r = .error (.other text)) ∨
          s.fault = fault ∧ r = value.mapError .other)) :
    Always (May t) (orTransient what (withCrmSession .own body))
      { stage := .inputs, fault := fault, world := w } fun r s =>
        HitReading w r s ∨ s.stage = .inputs ∧ s.fault = fault ∧ Transiently value r ∧
          ∃ audit, s.world = { w with audit := audit } := by
  unfold orTransient withCrmSession
  refine Always.tryCatch (Q := fun r s => s.stage = .inputs ∧
    (∃ audit, s.world = { w with audit := audit }) ∧
      (s.fault = .hit .wrapped ∧ (∃ text, r = .error (.other text)) ∨
        s.fault = fault ∧ r = value.mapError .other)) ?_ (fun a s h => ?_) fun e s h => ?_
  · -- the session closes
    refine hbody.ensuring fun r s h => ?_
    obtain ⟨stage, fault', w'⟩ := s
    obtain ⟨rfl, rfl, h⟩ := h
    refine always_await rfl ⟨rfl, ⟨_, rfl⟩, h⟩ fun e w'' _ htransient hw => ?_
    obtain ⟨text, rfl⟩ := other_of_transient htransient (by simp)
    rcases hw with rfl | ⟨-, h⟩
    · exact ⟨rfl, ⟨_, rfl⟩, Or.inl ⟨rfl, text, rfl⟩⟩
    · cases h
  · obtain ⟨hstage, haudit, ⟨hfault, text, h⟩ | ⟨hfault, h⟩⟩ := h
    · cases h
    · cases value with
      | ok b =>
          obtain rfl := Except.ok.inj h
          exact Or.inr ⟨hstage, hfault, rfl, haudit⟩
      | error text => cases h
  · obtain ⟨hstage, haudit, ⟨hfault, text, h⟩ | ⟨hfault, h⟩⟩ := h
    · obtain rfl := Except.error.inj h
      exact Or.inl (Or.inl ⟨⟨_, rfl⟩, hfault, haudit⟩)
    · cases value with
      | ok b => cases h
      | error text =>
          obtain rfl := Except.error.inj h
          exact Or.inr ⟨hstage, hfault, ⟨_, rfl⟩, haudit⟩

/-- The key of the row is read. -/
theorem always_readCrmKey {idKey idCommunity : Nat} :
    Always (May t) (orTransient "crm read: " (readCrmKey idKey idCommunity))
      { stage := .inputs, fault := fault, world := w } fun r s =>
        HitReading w r s ∨ s.stage = .inputs ∧ s.fault = fault ∧
          r = .ok (w.crm.allocationKeys idKey idCommunity) ∧
            ∃ audit, s.world = { w with audit := audit } := by
  refine always_readCrm (.ok (w.crm.allocationKeys idKey idCommunity))
    (always_await rfl ⟨rfl, rfl, Or.inr ⟨rfl, rfl⟩⟩ fun e w' _ htransient hw => ?_)
  obtain ⟨text, rfl⟩ := other_of_transient htransient (by simp)
  exact ⟨by rcases hw with rfl | ⟨rfl, -⟩ <;> rfl, rfl, Or.inl ⟨rfl, text, rfl⟩⟩

theorem answer_summarize {idCommunity idSharingOperation periodStart periodEnd : Nat} :
    answer t (.summarize idCommunity idSharingOperation periodStart periodEnd) w =
      some (((periodReadings w idCommunity idSharingOperation periodStart periodEnd).map
        Prod.snd).mapError .other, w) := by
  simp only [answer, periodReadings]
  cases sentBounds periodStart periodEnd with
  | error text => rfl
  | ok bounds =>
      simp only [Bind.bind, Except.bind]
      cases summarize (w.crm.meterConsumption idCommunity idSharingOperation bounds.1 bounds.2) <;>
        rfl

/-- Bounds that have been sent once can be sent again. -/
theorem answer_fetchRows {idCommunity idSharingOperation periodStart periodEnd : Nat}
    {readings : List (MeterConsumption F)} {summary : CrmDataSummary F}
    (h : periodReadings w idCommunity idSharingOperation periodStart periodEnd =
      .ok (readings, summary)) :
    answer t (.fetchRows idCommunity idSharingOperation periodStart periodEnd) w =
      some (.ok (fetchRows readings), w) := by
  unfold periodReadings at h
  cases hbounds : sentBounds periodStart periodEnd with
  | error text => simp [hbounds, Bind.bind, Except.bind] at h
  | ok bounds =>
      simp only [hbounds, Bind.bind, Except.bind] at h
      split at h
      · cases h
      · obtain ⟨rfl, -⟩ := Prod.mk.inj (Except.ok.inj h)
        simp only [answer, hbounds]

theorem summary_of_periodReadings {idCommunity idSharingOperation periodStart periodEnd : Nat}
    {readings : List (MeterConsumption F)} {summary : CrmDataSummary F}
    (h : periodReadings w idCommunity idSharingOperation periodStart periodEnd =
      .ok (readings, summary)) : summary = summaryOf readings := by
  unfold periodReadings at h
  cases hbounds : sentBounds periodStart periodEnd with
  | error text => simp [hbounds, Bind.bind, Except.bind] at h
  | ok bounds =>
      simp only [hbounds, Bind.bind, Except.bind] at h
      split at h
      · cases h
      · rename_i summary' hsummary
        obtain ⟨rfl, rfl⟩ := Prod.mk.inj (Except.ok.inj h)
        exact summarize_ok _ hsummary

/-- The pre-flight of the row's period, and its rows. -/
theorem always_readPeriod {idCommunity idSharingOperation periodStart periodEnd : Nat}
    {consumerNames : List String} {iterations : Nat} :
    Always (May t) (orTransient "crm read: "
      (readPeriod idCommunity idSharingOperation periodStart periodEnd consumerNames iterations))
      { stage := .inputs, fault := fault, world := w } fun r s =>
        HitReading w r s ∨ s.stage = .inputs ∧ s.fault = fault ∧
          Transiently ((periodReadings w idCommunity idSharingOperation periodStart periodEnd).map
            fun x =>
              let preflight := evaluate x.2 consumerNames iterations
              (preflight, if preflight.ok then fetchRows x.1 else [])) r ∧
            ∃ audit, s.world = { w with audit := audit } := by
  refine always_readCrm _ ?_
  have hhit : ∀ {o : Op F B} {e : Exn} {w' : World F B}, Stage.inputs.transient o e = true →
      (∀ key, o ≠ .download key) → (w' = w ∨ w' = w ∧ o.closes = false) →
        w' = w ∧ ∃ text, e = .other text := by
    intro o e w' htransient ho hw
    exact ⟨by rcases hw with rfl | ⟨rfl, -⟩ <;> rfl, other_of_transient htransient ho⟩
  cases hread : periodReadings w idCommunity idSharingOperation periodStart periodEnd with
  | error text =>
      have hsummarize : answer t (.summarize idCommunity idSharingOperation periodStart periodEnd) w =
          some (.error (.other text), w) := by
        rw [answer_summarize, hread]
        rfl
      refine Always.bind (always_await hsummarize (Q := fun r s => s.world = w ∧
        s.stage = .inputs ∧ (s.fault = .hit .wrapped ∧ (∃ text, r = .error (.other text)) ∨
          s.fault = fault ∧ r = .error (.other text))) ⟨rfl, rfl, Or.inr ⟨rfl, rfl⟩⟩
        fun e w' _ htransient hw => ?_) (fun a s h => ?_) fun e s h => ?_
      · obtain ⟨hworld, text', rfl⟩ := hhit htransient (by simp) hw
        exact ⟨hworld, rfl, Or.inl ⟨rfl, text', rfl⟩⟩
      · obtain ⟨-, -, ⟨-, text', h⟩ | ⟨-, h⟩⟩ := h <;> cases h
      · obtain ⟨hworld, hstage, ⟨hfault, text', h⟩ | ⟨hfault, h⟩⟩ := h
        · obtain rfl := Except.error.inj h
          exact ⟨hworld, hstage, Or.inl ⟨hfault, text', rfl⟩⟩
        · obtain rfl := Except.error.inj h
          exact ⟨hworld, hstage, Or.inr ⟨hfault, rfl⟩⟩
  | ok x =>
      obtain ⟨readings, summary⟩ := x
      refine always_await_bind (by rw [answer_summarize, hread]; rfl) ?_
        fun e w' _ htransient hw => ?_
      · simp only [Except.map]
        split_ifs with hok
        · refine always_await_bind (answer_fetchRows hread) ?_ fun e w' _ htransient hw => ?_
          · exact ⟨rfl, rfl, Or.inr ⟨rfl, rfl⟩⟩
          · obtain ⟨hworld, text', rfl⟩ := hhit htransient (by simp) hw
            exact ⟨hworld, rfl, Or.inl ⟨rfl, text', rfl⟩⟩
        · exact ⟨rfl, rfl, Or.inr ⟨rfl, rfl⟩⟩
      · obtain ⟨hworld, text', rfl⟩ := hhit htransient (by simp) hw
        exact ⟨hworld, rfl, Or.inl ⟨rfl, text', rfl⟩⟩

/-! ## The data -/

/-- A deterministic failure has been recorded, and the run is over. -/
def Recorded (row : SimulationModel) (fault : Fault) (w : World F B)
    (r : Except Exn (Except (Option SourceKey) α)) (s : Lone F B) : Prop :=
  (∃ storageKey, r = .ok (.error storageKey)) ∧ s.stage = .recording ∧ s.fault = fault ∧
    ∃ errorMessage, Left (row.set (failureValues errorMessage)) w s.world

theorem always_settle {s : Lone F B} {errorMessage : String} {storageKey : Option SourceKey}
    (hstage : s.stage = .inputs) (hfault : s.fault = fault) (hwaiting : Waiting row s.world)
    (hsources : s.world.storage.sources = w.storage.sources) (hnats : s.world.nats = w.nats) :
    Always (May t) (settle (α := α) simulationId errorMessage storageKey) s fun r s' =>
      Recorded row fault w r s' := by
  refine Always.bind (always_saveFailure (Or.inl hstage) hwaiting) (fun a s' h => ?_)
    fun e s' h => ?_
  · obtain ⟨-, hstage', hfault', hleft⟩ := h
    exact ⟨⟨_, rfl⟩, hstage', hfault'.trans hfault, _,
      hleft.committed, hleft.tx, hleft.sources.trans hsources, hleft.nats.trans hnats⟩
  · cases h.1

/-- Going on from data that has been read, or from its failure. -/
def Loaded (row : SimulationModel) (fault : Fault) (w : World F B) (data : Option α)
    (r : Except Exn (Except (Option SourceKey) α)) (s : Lone F B) : Prop :=
  match data with
  | none => Recorded row fault w r s
  | some a => r = .ok (.ok a) ∧ s.stage = .inputs ∧ s.fault = fault ∧
      ∃ audit, s.world = { w with audit := audit }

variable (lib : Libraries F B L) {consumerNames : List String} {iterations : Nat}

/-- The download of an upload. -/
theorem always_downloadSource {storageKey : SourceKey} (hwaiting : Waiting row w) :
    Always (May t) (downloadSource simulationId storageKey)
      { stage := .inputs, fault := fault, world := w } fun r s =>
        HitReading w r s ∨ Loaded row fault w (w.storage.sources storageKey) r s := by
  have hgo : answer t (.download storageKey) w = some
      (match w.storage.sources storageKey with
        | none => .error (.objectNotFound storageKey.text)
        | some content => .ok content, w) := by
    cases hcontent : w.storage.sources storageKey with
    | none => simp only [answer, hcontent]
    | some content => simp only [answer, hcontent]
  refine ⟨⟨_, _, .goes hgo⟩, fun r s hmay => ?_⟩
  cases hmay with
  | goes h =>
      obtain ⟨rfl, rfl⟩ := Prod.mk.inj (Option.some.inj (hgo.symm.trans h))
      cases hcontent : w.storage.sources storageKey with
      | none =>
          exact (always_settle rfl rfl hwaiting rfl rfl).mono fun r s h => Or.inr (by
            rw [Loaded]
            exact h)
      | some content => exact Or.inr ⟨rfl, rfl, rfl, _, rfl⟩
  | @faults e choice w' coming transient raises h =>
      have hworld : w' = w := by
        rcases fault_world raises h hgo with rfl | ⟨rfl, -⟩ <;> rfl
      cases e with
      | transientStorage text => exact Or.inl (Or.inl ⟨⟨_, rfl⟩, rfl, _, hworld⟩)
      | other text =>
          -- not one of the errors that are mapped
          exact Or.inl (Or.inr ⟨⟨text, rfl⟩, rfl, ⟨.unmapped, by simp, rfl⟩, _, hworld⟩)
      | _ => cases transient

omit [PyFloat F] in
/-- A step that has been read, or whose failure has been recorded, then the next. -/
theorem Loaded.next {β : Type} {data : Option α} {r : Except Exn (Except (Option SourceKey) α)}
    {s : Lone F B} (h : Loaded row fault w data r s) :
    (data = none ∧ ∃ k, r = .ok (.error k) ∧ Recorded row fault w (.ok (.error k) : Except Exn
      (Except (Option SourceKey) β)) s) ∨
    ∃ a, data = some a ∧ r = .ok (.ok a) ∧ s.stage = .inputs ∧ s.fault = fault ∧
      ∃ audit, s.world = { w with audit := audit } := by
  cases data with
  | none =>
      obtain ⟨⟨k, rfl⟩, hrest⟩ := h
      exact Or.inl ⟨rfl, k, rfl, ⟨k, rfl⟩, hrest⟩
  | some a => exact Or.inr ⟨a, rfl, h⟩

/-- A failure recorded after reading. -/
theorem always_settle_read {s : Lone F B} {errorMessage : String} {storageKey : Option SourceKey}
    (hwaiting : Waiting row w) (hstage : s.stage = .inputs) (hfault : s.fault = fault)
    {audit : AuditLog} (hworld : s.world = { w with audit := audit }) :
    Always (May t) (settle (α := α) simulationId errorMessage storageKey) s fun r s' =>
      HitReading w r s' ∨ Loaded row fault w none r s' := by
  refine (always_settle hstage hfault ?_ (by rw [hworld]) (by rw [hworld])).mono fun r s h =>
    Or.inr h
  rw [hworld]
  exact ⟨hwaiting.committed, hwaiting.pending, hwaiting.tx⟩

/-- The data of an upload is read. -/
theorem always_loadFromFile {snapshot : SimulationModel} (hwaiting : Waiting row w) :
    Always (May t) (loadFromFile lib simulationId snapshot consumerNames)
      { stage := .inputs, fault := fault, world := w } fun r s =>
        HitReading w r s ∨ Loaded row fault w (uploadData lib w snapshot consumerNames) r s := by
  have hincomplete : Always (May t) (settle (α := SimulationRawData F) simulationId
      "file_source_incomplete" none) { stage := .inputs, fault := fault, world := w } fun r s =>
        HitReading w r s ∨ Loaded row fault w none r s :=
    always_settle_read hwaiting rfl rfl rfl
  unfold loadFromFile uploadData
  cases hkey : snapshot.fileStorageKey with
  | none => exact hincomplete
  | some storageKey =>
      cases hname : snapshot.fileName with
      | none => exact hincomplete
      | some fileName =>
          refine Always.bind (always_downloadSource hwaiting) (fun a s h => ?_) fun e s h => ?_
          · rcases h with h | h
            · exact h.not_ok.elim
            · rcases h.next with ⟨hnone, k, hk, hrecorded⟩ |
                ⟨content, hcontent, ha, hstage, hfault, audit, hworld⟩
              · obtain rfl := Except.ok.inj hk
                simp only [hnone, Option.bind_none]
                exact Or.inr hrecorded
              · obtain rfl := Except.ok.inj ha
                simp only [hcontent, Option.bind_some]
                cases hload : loadUpload lib content fileName (snapshot.injectionName.getD "")
                  consumerNames with
                | error failure => exact always_settle_read hwaiting hstage hfault hworld
                | ok raw => exact Or.inr ⟨rfl, hstage, hfault, audit, hworld⟩
          · rcases h with h | h
            · exact Or.inl h.next
            · rcases h.next (β := B) with ⟨-, k, hk, -⟩ | ⟨content, -, ha, -⟩
              · cases hk
              · cases ha

/-- The run ends with a transient error, and no fault has caused it. -/
def Poisoned (fault : Fault) (w : World F B) (r : Except Exn α) (s : Lone F B) : Prop :=
  Raised r ∧ s.fault = fault ∧ ∃ audit, s.world = { w with audit := audit }

/-- The data of a period is read. -/
theorem always_loadFromCrm {snapshot : SimulationModel} (hwaiting : Waiting row w) :
    Always (May t) (loadFromCrm simulationId snapshot consumerNames iterations)
      { stage := .inputs, fault := fault, world := w } fun r s =>
        HitReading w r s ∨
          if unreadable w snapshot then Poisoned fault w r s
          else Loaded row fault w (periodData w snapshot consumerNames iterations) r s := by
  have hincomplete : Always (May t) (settle (α := SimulationRawData F) simulationId
      "crm_source_incomplete" none) { stage := .inputs, fault := fault, world := w } fun r s =>
        HitReading w r s ∨ Loaded row fault w none r s :=
    always_settle_read hwaiting rfl rfl rfl
  unfold loadFromCrm unreadable periodData
  cases hop : snapshot.idSharingOperation with
  | none => simpa using hincomplete
  | some idSharingOperation =>
    cases hstart : snapshot.periodStart with
    | none => simpa using hincomplete
    | some periodStart =>
      cases hend : snapshot.periodEnd with
      | none => simpa using hincomplete
      | some periodEnd =>
          refine Always.bind always_readPeriod (fun period s h => ?_) fun e s h => ?_
          · rcases h with h | ⟨hstage, hfault, h, audit, hworld⟩
            · exact h.not_ok.elim
            · cases hread : periodReadings w snapshot.idCommunity idSharingOperation periodStart
                periodEnd with
              | error text =>
                  rw [hread] at h
                  obtain ⟨text', h⟩ := h
                  cases h
              | ok x =>
                  obtain ⟨readings, summary⟩ := x
                  rw [hread] at h
                  obtain rfl := Except.ok.inj h
                  obtain rfl := summary_of_periodReadings hread
                  simp only [hread, Except.toOption, Option.isNone_some, Bool.false_eq_true,
                    if_false, Option.bind_some]
                  cases hload : loadCrm readings consumerNames iterations with
                  | error failure =>
                      unfold loadCrm at hload
                      simp only [hload]
                      exact always_settle_read hwaiting hstage hfault hworld
                  | ok raw =>
                      unfold loadCrm at hload
                      simp only [hload]
                      exact Or.inr ⟨rfl, hstage, hfault, audit, hworld⟩
          · rcases h with h | ⟨hstage, hfault, h, audit, hworld⟩
            · exact Or.inl h.next
            · cases hread : periodReadings w snapshot.idCommunity idSharingOperation periodStart
                periodEnd with
              | error text =>
                  rw [hread] at h
                  obtain ⟨text', h⟩ := h
                  obtain rfl := Except.error.inj h
                  simp only [hread, Except.toOption, Option.isNone_none, if_true]
                  exact Or.inr ⟨⟨text', rfl⟩, hfault, audit, hworld⟩
              | ok x =>
                  rw [hread] at h
                  cases h

/-- The data of a row is read. -/
theorem always_loadSource {keyInput : SimulationKeyInput F} (hwaiting : Waiting row w) :
    Always (May t) (loadSource lib simulationId row keyInput)
      { stage := .inputs, fault := fault, world := w } fun r s =>
        HitReading w r s ∨
          if row.source = .crm ∧ unreadable w row = true then Poisoned fault w r s
          else Loaded row fault w (sourceData lib w row keyInput) r s := by
  unfold loadSource sourceData
  cases hsource : row.source with
  | crm =>
      refine (always_loadFromCrm hwaiting).mono fun r s h => h.imp_right fun h => ?_
      simpa using h
  | file =>
      refine (always_loadFromFile lib hwaiting).mono fun r s h => h.imp_right fun h => ?_
      simpa using h

/-! ## The solve, and what becomes of its result -/

/-- The solve: a failure is recorded, a result's series go to a file. -/
theorem always_solveRun {delivered : Option Nat} {keyInput : SimulationKeyInput F}
    {raw : SimulationRawData F} (hwaiting : Waiting row w) :
    Always (May t) (solveRun simulationId delivered row keyInput raw)
      { stage := .inputs, fault := fault, world := w } fun r s =>
        match runSimulation keyInput raw.C raw.VA raw.consumerNames with
        | .error _ => Recorded row fault w r s
        | .ok result => r = .ok (.ok (withoutSeries result, w.files.next)) ∧
            s = { stage := .persist
                  fault := fault
                  world := { w with files :=
                    { series := Function.update w.files.series w.files.next (some result)
                      next := w.files.next + 1 } } } := by
  cases hrun : runSimulation keyInput raw.C raw.VA raw.consumerNames with
  | error e =>
      refine ⟨⟨_, _, .goes (by simp only [answer, hrun]; rfl)⟩, fun r s hmay => ?_⟩
      cases hmay with
      | goes h =>
          simp only [answer, hrun] at h
          obtain ⟨rfl, rfl⟩ := Prod.mk.inj (Option.some.inj h)
          exact always_settle rfl rfl hwaiting rfl rfl
      | faults coming transient => cases transient
  | ok result =>
      refine ⟨⟨_, _, .goes (by simp only [answer, hrun]; rfl)⟩, fun r s hmay => ?_⟩
      cases hmay with
      | goes h =>
          simp only [answer, hrun] at h
          obtain ⟨rfl, rfl⟩ := Prod.mk.inj (Option.some.inj h)
          exact ⟨rfl, rfl⟩
      | faults coming transient => cases transient

/-- The fault has been wrapped as a transient error, and has failed nothing. -/
def HitLate (w : World F B) (r : Except Exn α) (s : Lone F B) : Prop :=
  Raised r ∧ s.fault = .hit .wrapped ∧
    (∃ row, s.world.db.row = some row ∧ row.status ≠ .failed) ∧
    s.world.storage.sources = w.storage.sources ∧ s.world.nats = w.nats

/-- The run ends with an outcome on the row. -/
def Settled (fault : Fault) (w : World F B) (r : Except Exn α) (s : Lone F B) : Prop :=
  (∃ a, r = .ok a) ∧ s.fault = fault ∧
    ∃ row, row.status ≠ .pending ∧ Left row w s.world

/-- The run ends with a transient error that no fault has caused. -/
def Stuck (row : SimulationModel) (fault : Fault) (w : World F B) (r : Except Exn α)
    (s : Lone F B) : Prop :=
  Raised r ∧ s.fault = fault ∧ Left row w s.world

/-- A solved run is saved if its tree fits its columns. -/
theorem always_persistRun {result series : KeySimResult F} {path : Nat}
    (hseries : w.files.series path = some series) (hwaiting : Waiting row w) :
    Always (May t) (persistRun simulationId (result, path))
      { stage := .persist, fault := fault, world := w } fun r s =>
        HitLate w r s ∨
          if (buildKeyResult result simulationId row.idCommunity).fits then Settled fault w r s
          else Stuck row fault w r s := by
  unfold persistRun orTransient
  refine Always.ensuring (Q := fun r s => HitLate w r s ∨
    if (buildKeyResult result simulationId row.idCommunity).fits then Settled fault w r s
    else Stuck row fault w r s)
    (Always.tryCatch (always_saveSuccess hseries hwaiting) (fun a s h => ?_) fun e s h => ?_)
    fun r s h => ?_
  · rcases h with ⟨⟨text, h⟩, -⟩ | ⟨-, hfault, hfits⟩
    · cases h
    · split_ifs at hfits ⊢ with hfits'
      · exact Or.inr ⟨⟨a, rfl⟩, hfault, _, by simp [successValues], hfits.2⟩
      · obtain ⟨⟨text, h⟩, -⟩ := hfits
        cases h
  · rcases h with ⟨⟨text, h⟩, -, hfault, hunsettled⟩ | ⟨-, hfault, hfits⟩
    · obtain rfl := Except.error.inj h
      refine Or.inl ⟨⟨_, rfl⟩, hfault, ?_, hunsettled.sources,
        hunsettled.nats⟩
      rcases hunsettled.committed with hrow | hrow
      · exact ⟨_, hrow, by simp [hwaiting.pending]⟩
      · exact ⟨_, hrow, by simp [successValues]⟩
    · by_cases hfits' : (buildKeyResult result simulationId row.idCommunity).fits = true
      · rw [if_pos hfits'] at hfits
        cases hfits.1
      · rw [if_neg hfits'] at hfits
        obtain ⟨⟨text, h⟩, hleft⟩ := hfits
        obtain rfl := Except.error.inj h
        refine Or.inr ?_
        rw [if_neg hfits']
        exact ⟨⟨_, rfl⟩, hfault, hleft⟩
  · -- the file is removed
    refine always_calm (fun _ e => by cases s.stage <;> cases e <;> rfl) rfl ?_
    rcases h with ⟨hraised, hfault, hrow, hsources, hnats⟩ | h
    · exact Or.inl ⟨hraised, hfault, hrow, hsources, hnats⟩
    · split_ifs at h ⊢ with hfits'
      · obtain ⟨hok, hfault, row', hrow', hleft⟩ := h
        exact Or.inr ⟨hok, hfault, row', hrow', hleft.committed, hleft.tx, hleft.sources,
          hleft.nats⟩
      · obtain ⟨hraised, hfault, hleft⟩ := h
        exact Or.inr ⟨hraised, hfault, hleft.committed, hleft.tx, hleft.sources, hleft.nats⟩

/-! ## A whole run -/

/-- The run of a key ends in a transient error, whatever works: its period cannot be
summarized, or its result does not fit the result's columns. -/
def Poison (lib : Libraries F B L) (w : World F B) (row : SimulationModel)
    (key : AllocationKeyModel F) : Prop :=
  (row.source = .crm ∧ unreadable w row = true) ∨
    ∃ result, resultOf lib w row key = some result ∧
      (buildKeyResult (withoutSeries result) row.id row.idCommunity).fits = false

omit [PyFloat F] in
theorem fits_ids {result : KeySimResult F} {a a' b b' : Nat} :
    (buildKeyResult result a b).fits = (buildKeyResult result a' b').fits := by
  simp [buildKeyResult, SimulationKeyResultModel.fits, buildIterationResult, buildConsumerResult,
    Function.comp_def]

omit [PyFloat F] in
theorem HitReading.late {r : Except Exn α} {s : Lone F B} (h : HitReading w r s)
    (hwaiting : Waiting row w) : HitLate w r s ∨ HitBare w r s := by
  refine h.imp_left fun ⟨hraised, hfault, audit, hworld⟩ => ?_
  refine ⟨hraised, hfault, ⟨row, ?_, by simp [hwaiting.pending]⟩, ?_, ?_⟩
  · rw [hworld]
    exact hwaiting.committed
  · rw [hworld]
  · rw [hworld]

/-- How a key's run ends: stuck on a poison pill, with an outcome otherwise, or
hit by the fault. -/
def RunEnds (lib : Libraries F B L) (row : SimulationModel) (key : AllocationKeyModel F)
    (fault : Fault) (w : World F B) (r : Except Exn α) (s : Lone F B) : Prop :=
  (HitLate w r s ∨ HitBare w r s) ∨ Poison lib w row key ∧ Stuck row fault w r s ∨
    ¬ Poison lib w row key ∧ Settled fault w r s

/-- A run without a result is no poison pill, unless its period is. -/
theorem not_poison {lib : Libraries F B L} {key : AllocationKeyModel F}
    (hunreadable : ¬ (row.source = .crm ∧ unreadable w row = true))
    (hnone : resultOf lib w row key = none) : ¬ Poison lib w row key := by
  rintro (h | ⟨result, hresult, -⟩)
  · exact hunreadable h
  · rw [hnone] at hresult
    cases hresult

omit [PyFloat F] in
theorem Recorded.settled {r : Except Exn (Except (Option SourceKey) α)} {s : Lone F B}
    {k : Option SourceKey} (h : Recorded row fault w r s) :
    Settled fault w (.ok k : Except Exn (Option SourceKey)) s := by
  obtain ⟨-, -, hfault, errorMessage, hleft⟩ := h
  exact ⟨⟨k, rfl⟩, hfault, _, by simp [failureValues], hleft⟩

omit [PyFloat F] in
theorem Left.of_audit {audit : AuditLog} {row' : SimulationModel} {w' : World F B}
    (h : Left row' { w with audit := audit } w') : Left row' w w' :=
  ⟨h.committed, h.tx, h.sources, h.nats⟩

/-- The persisting of a key's result. -/
theorem always_saved {key : AllocationKeyModel F} {result : KeySimResult F} {audit : AuditLog}
    (hwaiting : Waiting row w) (hunreadable : ¬ (row.source = .crm ∧ unreadable w row = true))
    (hsome : resultOf lib w row key = some result) :
    Always (May t) (do
      persistRun simulationId (withoutSeries result, w.files.next)
      pure row.fileStorageKey : Act F B (Option SourceKey))
      { stage := .persist
        fault := fault
        world := { w with
          audit := audit
          files :=
            { series := Function.update w.files.series w.files.next (some result)
              next := w.files.next + 1 } } } (RunEnds lib row key fault w) := by
  have hfits : (buildKeyResult (withoutSeries result) simulationId row.idCommunity).fits =
      (buildKeyResult (withoutSeries result) row.id row.idCommunity).fits := fits_ids
  have hwaiting' : Waiting row { w with
      audit := audit
      files :=
        { series := Function.update w.files.series w.files.next (some result)
          next := w.files.next + 1 } } :=
    ⟨hwaiting.committed, hwaiting.pending, hwaiting.tx⟩
  have hseries : Function.update w.files.series w.files.next (some result) w.files.next =
      some result := Function.update_self ..
  refine Always.bind (always_persistRun hseries hwaiting') (fun u s h => ?_) fun e s h => ?_
  · rcases h with ⟨⟨text, h⟩, -⟩ | h
    · cases h
    · split_ifs at h with hfits'
      · obtain ⟨-, hfault, row', hrow', hleft⟩ := h
        refine Or.inr (Or.inr ⟨?_, ⟨_, rfl⟩, hfault, row', hrow', hleft.committed, hleft.tx,
          hleft.sources, hleft.nats⟩)
        rintro (h | ⟨result', hresult', hrefused⟩)
        · exact hunreadable h
        · obtain rfl := Option.some.inj (hsome.symm.trans hresult')
          rw [← hfits, hfits'] at hrefused
          cases hrefused
      · obtain ⟨⟨text, h⟩, -⟩ := h
        cases h
  · rcases h with ⟨⟨text, h⟩, hrest⟩ | h
    · obtain rfl := Except.error.inj h
      exact Or.inl (Or.inl ⟨⟨text, rfl⟩, hrest⟩)
    · split_ifs at h with hfits'
      · obtain ⟨⟨u, h⟩, -⟩ := h
        cases h
      · obtain ⟨⟨text, h⟩, hfault, hleft⟩ := h
        obtain rfl := Except.error.inj h
        refine Or.inr (Or.inl ⟨Or.inr ⟨result, hsome, ?_⟩, ⟨text, rfl⟩, hfault, hleft.committed,
          hleft.tx, hleft.sources, hleft.nats⟩)
        rw [← hfits]
        simpa using hfits'

/-- The run of a key that was found. -/
theorem always_runKey {delivered : Option Nat} {key : AllocationKeyModel F}
    (hwaiting : Waiting row w) :
    Always (May t) (runKey lib simulationId delivered row key)
      { stage := .inputs, fault := fault, world := w } (RunEnds lib row key fault w) := by
  unfold runKey
  refine Always.bind (always_loadSource lib hwaiting) (fun a s h => ?_) fun e s h => ?_
  · rcases h with h | h
    · exact h.not_ok.elim
    · split_ifs at h with hunreadable
      · obtain ⟨⟨text, h⟩, -⟩ := h
        cases h
      · rcases h.next (β := KeySimResult F) with ⟨hnone, k, hk, hrecorded⟩ |
          ⟨raw, hraw, ha, hstage, hfault, audit, hworld⟩
        · -- no data
          obtain rfl := Except.ok.inj hk
          refine Or.inr (Or.inr ⟨not_poison hunreadable ?_, hrecorded.settled⟩)
          simp [resultOf, hnone]
        · obtain rfl := Except.ok.inj ha
          have hresult : resultOf lib w row key =
              (solve (keyInputOf row.source key) raw).toOption := by
            simp [resultOf, hraw]
          obtain ⟨stage, fault', w'⟩ := s
          obtain rfl : stage = .inputs := hstage
          obtain rfl : fault' = fault := hfault
          obtain rfl : w' = { w with audit := audit } := hworld
          have hwaiting' : Waiting row { w with audit := audit } :=
            ⟨hwaiting.committed, hwaiting.pending, hwaiting.tx⟩
          cases htoo : tooLarge raw.C.rows raw.C.cols
            (keyInputOf row.source key).iterations.length with
          | some oversize =>
              have hnone : resultOf lib w row key = none := by
                simp [hresult, solve, htoo, Except.toOption]
              simp only [htoo]
              refine Always.bind (always_saveFailure (Or.inl rfl) hwaiting') (fun u s h => ?_)
                fun e s h => by cases h.1
              obtain ⟨-, -, hfault, hleft⟩ := h
              exact Or.inr (Or.inr ⟨not_poison hunreadable hnone, ⟨_, rfl⟩, hfault, _,
                by simp [failureValues], hleft.of_audit⟩)
          | none =>
              simp only [htoo]
              refine Always.bind (always_solveRun hwaiting') (fun a s h => ?_) fun e s h => ?_
              · cases hrun : runSimulation (keyInputOf row.source key) raw.C raw.VA
                  raw.consumerNames with
                | error e =>
                    rw [hrun] at h
                    obtain ⟨⟨k, hk⟩, -, hfault, errorMessage, hleft⟩ := h
                    obtain rfl := Except.ok.inj hk
                    have hnone : resultOf lib w row key = none := by
                      simp [hresult, solve, htoo, hrun, Except.toOption]
                    exact Or.inr (Or.inr ⟨not_poison hunreadable hnone, ⟨k, rfl⟩, hfault, _,
                      by simp [failureValues], hleft.of_audit⟩)
                | ok result =>
                    rw [hrun] at h
                    obtain ⟨ha, rfl⟩ := h
                    obtain rfl := Except.ok.inj ha
                    have hsome : resultOf lib w row key = some result := by
                      simp [hresult, solve, htoo, hrun, Except.toOption]
                    exact always_saved lib hwaiting hunreadable hsome
              · cases hrun : runSimulation (keyInputOf row.source key) raw.C raw.VA
                  raw.consumerNames with
                | error e =>
                    rw [hrun] at h
                    obtain ⟨⟨k, hk⟩, -⟩ := h
                    cases hk
                | ok result =>
                    rw [hrun] at h
                    cases h.1
  · rcases h with h | h
    · exact Or.inl (h.next.late hwaiting)
    · split_ifs at h with hunreadable
      · obtain ⟨⟨text, h⟩, hfault, audit, hworld⟩ := h
        obtain rfl := Except.error.inj h
        refine Or.inr (Or.inl ⟨Or.inl hunreadable, ⟨text, rfl⟩, hfault, ?_⟩)
        rw [hworld]
        exact ⟨hwaiting.committed, hwaiting.tx, rfl, rfl⟩
      · rcases h.next (β := KeySimResult F) with ⟨-, k, hk, -⟩ | ⟨raw, -, ha, -⟩
        · cases hk
        · cases ha

/-- The run of the row is a poison pill. -/
def PoisonPill (lib : Libraries F B L) (w : World F B) (row : SimulationModel) : Prop :=
  ∃ key, w.crm.allocationKeys row.idKey row.idCommunity = some key ∧ Poison lib w row key

/-- The row has been read, unless the fault has hit the read. -/
theorem always_snapshotSimulation (hwaiting : Waiting row w) :
    Always (May t) snapshotSimulation { stage := .row, fault := fault, world := w } fun r s =>
      s.stage = .inputs ∧ s.world = w ∧
        (s.fault = .hit .rowRead ∧ (∃ text, r = .error (.other text)) ∨
          s.fault = fault ∧ r = .ok (some row)) := by
  have hclosed : { w with db := w.db.rollback ⟨t, .own⟩ } = w := by
    rw [LocalDb.rollback_of_not_own (LocalDb.own_of_free hwaiting.tx)]
  unfold snapshotSimulation withLocalSession
  refine Always.ensuring (Q := fun r s => s.stage = .row ∧ s.world = w ∧
    (s.fault = .hit .rowRead ∧ (∃ text, r = .error (.other text)) ∨
      s.fault = fault ∧ r = .ok (some row))) ?_ fun r s h => ?_
  · have hgo : answer t (.getRow .own) w = some (.ok (some row), w) := by
      simp only [answer, LocalDb.visible_of_free hwaiting.tx, hwaiting.committed]
    refine always_await hgo ⟨rfl, rfl, Or.inr ⟨rfl, rfl⟩⟩ fun e w' _ htransient hw => ?_
    have hworld : w' = w := by rcases hw with rfl | ⟨rfl, -⟩ <;> rfl
    cases e with
    | other text => exact ⟨rfl, hworld, Or.inl ⟨rfl, text, rfl⟩⟩
    | _ => cases htransient
  · obtain ⟨stage, fault', w'⟩ := s
    obtain ⟨rfl, rfl, h⟩ := h
    have hgo : answer t (.closeLocal .own) w' = some (.ok (), w') := by
      rw [answer, hclosed]
    refine always_await hgo ⟨rfl, rfl, h⟩ fun e w'' _ htransient hw => ?_
    have hworld : w'' = w' := by rcases hw with rfl | ⟨rfl, -⟩ <;> rfl
    cases e with
    | other text => exact ⟨rfl, hworld, Or.inl ⟨rfl, text, rfl⟩⟩
    | _ => cases htransient

/-- How a run ends. -/
def ProcessEnds (lib : Libraries F B L) (row : SimulationModel) (fault : Fault) (w : World F B)
    (r : Except Exn α) (s : Lone F B) : Prop :=
  (HitLate w r s ∨ HitBare w r s) ∨ PoisonPill lib w row ∧ Stuck row fault w r s ∨
    ¬ PoisonPill lib w row ∧ Settled fault w r s

theorem always_process {delivered : Option Nat} (hwaiting : Waiting row w)
    (hdelivered : delivered.any (maxDeliveries ≤ ·) = false) :
    Always (May t) (process lib simulationId delivered)
      { stage := .row, fault := fault, world := w } (ProcessEnds lib row fault w) := by
  unfold process
  refine Always.bind (always_snapshotSimulation hwaiting) (fun a s h => ?_) fun e s h => ?_
  · obtain ⟨hstage, hworld, ⟨-, text, h⟩ | ⟨hfault, h⟩⟩ := h
    · cases h
    · obtain rfl := Except.ok.inj h
      obtain ⟨stage, fault', w'⟩ := s
      obtain rfl : stage = .inputs := hstage
      obtain rfl : fault' = fault := hfault
      obtain rfl : w' = w := hworld
      simp only [hwaiting.pending, hdelivered, ne_eq, not_true_eq_false, if_false,
        Bool.false_eq_true]
      refine Always.bind always_readCrmKey (fun found s h => ?_) fun e s h => ?_
      · rcases h with h | ⟨hstage, hfault, h, audit, hworld⟩
        · exact h.not_ok.elim
        · obtain rfl := Except.ok.inj h
          obtain ⟨stage, fault'', w''⟩ := s
          obtain rfl : stage = .inputs := hstage
          obtain rfl : fault'' = fault' := hfault
          obtain rfl : w'' = { w' with audit := audit } := hworld
          have hwaiting' : Waiting row { w' with audit := audit } :=
            ⟨hwaiting.committed, hwaiting.pending, hwaiting.tx⟩
          cases hkey : w'.crm.allocationKeys row.idKey row.idCommunity with
          | none =>
              have hclean : ¬ PoisonPill lib w' row := by
                rintro ⟨key, hfound, -⟩
                rw [hkey] at hfound
                cases hfound
              refine Always.bind (always_saveFailure (Or.inl rfl) hwaiting') (fun u s h => ?_)
                fun e s h => by cases h.1
              obtain ⟨-, -, hfault, hleft⟩ := h
              exact Or.inr (Or.inr ⟨hclean, ⟨_, rfl⟩, hfault, _, by simp [failureValues],
                hleft.of_audit⟩)
          | some key =>
              have hpill : PoisonPill lib w' row ↔ Poison lib w' row key := by
                refine ⟨fun ⟨key', hfound, h⟩ => ?_, fun h => ⟨key, hkey, h⟩⟩
                obtain rfl := Option.some.inj (hkey.symm.trans hfound)
                exact h
              refine (always_runKey lib hwaiting').mono fun r s h => ?_
              unfold ProcessEnds
              rw [hpill]
              rcases h with h | ⟨hpoison, hraised, hfault, hleft⟩ |
                ⟨hclean, hok, hfault, row', hrow', hleft⟩
              · exact Or.inl h
              · exact Or.inr (Or.inl ⟨hpoison, hraised, hfault, hleft.of_audit⟩)
              · exact Or.inr (Or.inr ⟨hclean, hok, hfault, row', hrow', hleft.of_audit⟩)
      · rcases h with h | ⟨-, -, h, -⟩
        · exact Or.inl (h.next.late hwaiting)
        · cases h
  · obtain ⟨hstage, hworld, ⟨hfault, text, h⟩ | ⟨-, h⟩⟩ := h
    · obtain rfl := Except.error.inj h
      exact Or.inl (Or.inr ⟨⟨text, rfl⟩, hstage, ⟨_, by simp, hfault⟩, _, hworld⟩)
    · cases h

/-! ## The reply -/

/-- How a delivery ends: a fault that nothing wraps fails it, any other has it back; a
poison pill comes back, and any other message is settled. -/
inductive DeliveryEnds (lib : Libraries F B L) (t : Nat) (row : SimulationModel) (fault : Fault)
    (w : World F B) (s : Lone F B) : Prop where
  | failed {row' : SimulationModel} {site : Site} (bare : site ≠ .wrapped)
      (hit : s.fault = .hit site) (committed : s.world.db.row = some row')
      (status : row'.status = .failed)
      (replies : s.world.nats.replies = w.nats.replies ++ [(t, .ack)])
  | back {row' : SimulationModel} (hit : s.fault = .hit .wrapped)
      (committed : s.world.db.row = some row') (status : row'.status ≠ .failed)
      (sources : s.world.storage.sources = w.storage.sources)
      (replies : s.world.nats.replies = w.nats.replies ++ [(t, .nak)])
  | poison (pill : PoisonPill lib w row) (spared : s.fault = fault)
      (committed : s.world.db.row = some row)
      (replies : s.world.nats.replies = w.nats.replies ++ [(t, .nak)])
  | settled {row' : SimulationModel} (clean : ¬ PoisonPill lib w row) (spared : s.fault = fault)
      (committed : s.world.db.row = some row') (status : row'.status ≠ .pending)
      (replies : s.world.nats.replies = w.nats.replies ++ [(t, .ack)])

/-- A delivery below the limit, of a row that waits for its outcome. -/
theorem always_handleMessage {delivered : Option Nat} (hwaiting : Waiting row w)
    (hdelivered : delivered.any (maxDeliveries ≤ ·) = false) :
    Always (May t) (handleMessage lib simulationId delivered)
      { stage := .row, fault := fault, world := w } fun _ s =>
        DeliveryEnds lib t row fault w s := by
  unfold handleMessage
  refine Always.andThen (Q := ProcessEnds lib row fault w)
    (Always.ensuring (always_process lib hwaiting hdelivered) fun r s h => ?_) fun r s h => ?_
  · -- the heartbeat stops
    have hafter : s.stage.after (.stopHeartbeat : Op F B) (.ok ()) = s.stage := by
      cases s.stage <;> rfl
    refine always_calm (fun _ e => by cases s.stage <;> cases e <;> rfl) rfl ?_
    rw [hafter]
    exact h
  · have hcalm : ∀ (o : Op F B) (stage : Stage), o = .ack ∨ o = .nak ∨ (∃ k, o = .delete k) →
        ∀ e, stage.transient o e = false := by
      rintro o stage (rfl | rfl | ⟨k, rfl⟩) e <;> cases stage <;> cases e <;> rfl
    rcases h with (⟨⟨text, rfl⟩, hfault, ⟨row', hrow', hstatus⟩, hsources, hnats⟩ |
      ⟨⟨text, rfl⟩, hstage, ⟨site, hbare, hfault⟩, audit, hworld⟩) |
        ⟨hpill, ⟨text, rfl⟩, hfault, hleft⟩ |
          ⟨hclean, ⟨k, rfl⟩, hfault, row', hrow', hleft⟩
    · exact always_calm (fun _ => hcalm _ _ (Or.inr (Or.inl rfl))) rfl
        (.back hfault hrow' hstatus hsources (by simp [hnats]))
    · -- the catch-all records a failure
      have hwaiting' : Waiting row s.world := by
        rw [hworld]
        exact ⟨hwaiting.committed, hwaiting.pending, hwaiting.tx⟩
      refine Always.bind (always_saveFailure (Or.inl hstage) hwaiting') (fun u s' h => ?_)
        fun e s' h => by cases h.1
      obtain ⟨-, -, hfault', hleft⟩ := h
      exact always_calm (fun _ => hcalm _ _ (Or.inl rfl)) rfl
        (.failed hbare (hfault'.trans hfault) hleft.committed (by simp [failureValues])
          (by simp [hleft.nats, hworld]))
    · exact always_calm (fun _ => hcalm _ _ (Or.inr (Or.inl rfl))) rfl
        (.poison hpill hfault hleft.committed (by simp [hleft.nats]))
    · refine always_calm_bind (fun _ => hcalm _ _ (Or.inl rfl)) rfl ?_
      cases k with
      | none => exact .settled hclean hfault hleft.committed hrow' (by simp [hleft.nats])
      | some key =>
          exact always_calm (fun _ => hcalm _ _ (Or.inr (Or.inr ⟨_, rfl⟩))) rfl
            (.settled hclean hfault hleft.committed hrow' (by simp [hleft.nats]))

end SimulationKey
