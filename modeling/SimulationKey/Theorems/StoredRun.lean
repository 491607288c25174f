import SimulationKey.Theorems.Finality
import SimulationKey.Worker.OneDelivery

/-!
# What a simulation answers is one run of its input

In every state of every run of the service, whatever fails and whatever else
runs, the committed row of a simulation

* keeps the columns its creation gave it, and the three others agree with each
  other (`row_kept`);
* when it is SUCCESS, comes with the totals and the series of one run: of a key
  that the CRM has held, over the upload that was sent or over readings that the
  CRM has held (`success_is_one_run`).

So two deliveries that solve at the same time, over a CRM that changes between
them, never leave the totals of one beside the series of the other.
-/

namespace SimulationKey.OneRun

open Kit Kit.Prog Kit.Discipline

variable {F B L α : Type}

/-! ## Requests -/

section Triples

variable [PyFloat F] {lib : Libraries F B L} {simulationId : Nat} {start : Entry F B}
  {keys : AllocationKeyModel F → Prop} {readings : List (MeterConsumption F) → Prop} {t : Nat}

omit [PyFloat F] in
/-- What a session has staged from no transaction. -/
theorem losing_staged {w : World F B} {s : SessionKind} {row : Option SimulationModel}
    {claimed : Bool} (hrow : ∀ new, row = some new → new.status ≠ .success) :
    ∀ tx, (w.db.stage ⟨t, s⟩ row claimed).tx = some tx → tx.owner.task = t →
      tx.owner = ⟨t, s⟩ ∧ ∀ new, tx.row = some new → new.status ≠ .success := by
  intro tx htx _
  obtain rfl := Option.some.inj htx
  exact ⟨rfl, hrow⟩

theorem losing_insertRow {w w' : World F B} {choice : Choice} {row : SimulationModel}
    {r : Except Exn Nat} (h : NoTx t w) (hrow : asCreated row = row)
    (hexec : exec choice t (.insertRow .request row) w = some (r, w')) : Losing t .request w' := by
  have hmove := exec_db hexec
  unfold Losing
  generalize w'.db = db at hmove ⊢
  cases hmove with
  | same => exact losing_of_noTx h .request
  | insert fresh free =>
      refine losing_staged fun new hnew => ?_
      obtain rfl := Option.some.inj hnew
      rw [← hrow]
      simp [asCreated]

theorem losing_updateRow {w w' : World F B} {choice : Choice} {values : RowValues}
    {r : Except Exn Unit} (h : NoTx t w)
    (hvalues : ∀ row, w.db.row = some row → (row.set values).status = .failed)
    (hexec : exec choice t (.updateRow .own values) w = some (r, w')) : Losing t .own w' := by
  have hmove := exec_db hexec
  unfold Losing
  generalize w'.db = db at hmove ⊢
  cases hmove with
  | same => exact losing_of_noTx h .own
  | update sets free visible =>
      refine losing_staged fun new hnew => ?_
      obtain rfl := Option.some.inj hnew
      rw [hvalues _ (h.visible .own ▸ visible)]
      simp

/-- The deletion is staged, or the row is gone. -/
def Deleting (t : Nat) (w : World F B) : Prop :=
  Losing t .request w ∧ (Gone w.db ∨ DeletionStaged t w)

theorem deleting_deleteRow {w w' : World F B} (h : NoTx t w) (hcreated : w.db.created = true)
    (hexec : answer t (.deleteRow .request) w = some (.ok (), w')) : Deleting t w' := by
  rcases deleteRow_staged hexec with ⟨hsame, hgone⟩ | hstaged
  · exact ⟨losing_of_noTx (h.kept (.of_db hsame)) .request,
      Or.inl ⟨by rw [hsame]; exact hcreated, hgone⟩⟩
  · refine ⟨fun tx htx _ => ?_, Or.inr hstaged⟩
    obtain ⟨tx', htx', howner, hrow⟩ := hstaged
    obtain rfl := Option.some.inj (htx'.symm.trans htx)
    exact ⟨howner, fun row h => by rw [hrow] at h; cases h⟩

theorem deleting_stable : (oneRun lib simulationId start keys readings).Stable t (Deleting t) := by
  rintro w w' ⟨hlosing, hgone | hstaged⟩ hrely
  · exact ⟨losing_stable hlosing hrely, Or.inl (hrely.gone hgone)⟩
  · exact ⟨losing_stable hlosing hrely, Or.inr (hstaged.kept hrely.tx)⟩

/-- A committed deletion leaves no row, ever. -/
theorem safe_commit_deleting {w : World F B} (hw : Deleting t w) :
    (oneRun lib simulationId start keys readings).Safe t
      (fun r w => r = .ok () → Gone w.db ∧ NoTx t w) (await (.commitLocal .request)) w := by
  refine safe_perform (d := oneRun lib simulationId start keys readings) deleting_stable hw
    (fun w _ h tx row hown hrow hsuccess => ?_) fun choice r w w' hinv h hexec hok => ?_
  · obtain ⟨htx, howner⟩ := (LocalDb.own_eq_some _ _).mp hown
    exact absurd hsuccess ((h.1 tx htx (by rw [howner])).2 row hrow)
  · rcases commit_cases hexec with rfl | ⟨-, hraised⟩
    · refine ⟨?_, h.1.committed⟩
      rcases h.2 with hgone | ⟨tx, htx, howner, hrow⟩
      · exact (DbKept.of_move hinv.db (.commit .request)).gone hgone
      · show Gone (w.db.commit ⟨t, .request⟩)
        rw [LocalDb.commit_of_own ((LocalDb.own_eq_some _ _).mpr ⟨htx, howner⟩)]
        exact ⟨rfl, hrow⟩
    · exact absurd hok hraised

theorem polite_deleteSimulation {w : World F B} (hw : NoTx t w) (idSimulation community : Nat) :
    (oneRun lib simulationId start keys readings).Safe t (fun _ _ => True)
      (deleteSimulation idSimulation community : Act F B Unit) w := by
  refine Safe.bind ((learns_getSimulationRow .request community w hw).mono fun r w hread => ?_)
  rcases r with e | _ | row
  · trivial
  · trivial
  · obtain ⟨-, -, hcreated, -⟩ := hread.2 _ rfl row rfl
    refine Safe.bind (safe_perform (d := oneRun lib simulationId start keys readings)
      (A := fun w => w.db.created = true ∧ NoTx t w)
      (fun h hrely => ⟨hrely.created h.1, h.2.kept hrely.tx⟩) ⟨hcreated, hread.1⟩
      (fun _ _ _ => trivial) fun choice r w w' _ h hexec => ?_)
    cases r with
    | error e => trivial
    | ok u =>
        have hdeleting := deleting_deleteRow h.2 h.1 (exec_ok rfl hexec)
        refine Safe.bind ((safe_commit_deleting hdeleting).mono fun r w hgone => ?_)
        cases r with
        | error e => trivial
        | ok u =>
            have hops : ∀ o : Op F B, (∀ w, Gone w.db →
                Pre lib simulationId start keys readings t o w) →
                  ∀ w, Inv lib simulationId start keys readings w → Gone w.db →
                    Pre lib simulationId start keys readings t o w ∧ ∀ choice r w',
                      exec choice t o w = some (r, w') → Gone w'.db :=
              fun o hpre w hinv hgone => ⟨hpre w hgone, fun choice r w' hexec =>
                (DbKept.of_move hinv.db (exec_db hexec)).gone hgone⟩
            refine (Safe.of_allOps (d := oneRun lib simulationId start keys readings)
              (A := fun w => Gone w.db) (fun h hrely => hrely.gone h)
              (.bind (.perform (hops _ fun w hgone => ?_)) fun _ => ?_) (hgone rfl).1).mono
                fun _ _ _ => trivial
            · cases row.fileStorageKey <;> trivial
            · cases row.resultStorageKey with
              | none => exact .perform (hops (.logAudit .request _) fun _ _ => trivial)
              | some key =>
                  exact .bind (.perform (hops (.delete (some (.result key))) fun _ hgone => hgone))
                    fun _ => .perform (hops (.logAudit .request _) fun _ _ => trivial)

/-! ### Starts -/

omit [PyFloat F] in
/-- The attributes that a failed publish changes turn the row into a FAILED one. -/
theorem failed_of_changedBy {w : World F B} {read row : SimulationModel} {message : String}
    (hinv : DbInv simulationId start w.db) (hread : Read simulationId start (some read) w)
    (hrow : w.db.row = some row) (hlength : message.length ≤ errorMessageMaxLen) :
    Consistent simulationId (row.set (changedBy read .failed message)) ∧
      (row.set (changedBy read .failed message)).status = .failed := by
  obtain ⟨-, hconsistent, -, hlost⟩ := hread read rfl
  by_cases hstatus : read.status = .failed
  · -- the status is not in the SET
    have hfailed := (hlost hstatus).2 row hrow
    have hold := hinv.consistent row hrow
    unfold Consistent at hold ⊢
    simp only [hfailed] at hold
    simp only [SimulationModel.set_status, changedBy, hstatus, if_true, Option.getD_none, hfailed,
      and_true]
    by_cases hmessage : read.errorMessage = some message
    · simpa [SimulationModel.set, changedBy, hmessage] using hold
    · exact ⟨message, by simp [SimulationModel.set, hmessage], hlength⟩
  · have hnone : read.errorMessage = none := by
      unfold Consistent at hconsistent
      cases h : read.status with
      | pending =>
          simp only [h] at hconsistent
          exact hconsistent.1
      | success =>
          simp only [h] at hconsistent
          exact hconsistent.1
      | failed => exact absurd h hstatus
    unfold Consistent
    simp only [SimulationModel.set_status, changedBy, hstatus, if_false, Option.getD_some, and_true]
    exact ⟨message, by simp [SimulationModel.set, hnone], hlength⟩

theorem learns_markFailedToQueue (id : Nat) (reason : String) :
    Learns lib simulationId start keys readings t (markFailedToQueue id reason)
      fun _ _ => True := by
  refine (learns_of_yields (yields_session .always (fun _ => .always) fun w _ hw => ?_)).next
    (K := fun _ _ => True) fun marked => ?_
  · refine Safe.bind ((learns_getRow .own w hw).mono fun r w hread => ?_)
    rcases r with e | _ | read
    · exact ⟨hread.1.ownTx, fun _ _ => trivial⟩
    · exact ⟨hread.1.ownTx, fun _ _ => trivial⟩
    · refine Safe.bind (safe_perform (d := oneRun lib simulationId start keys readings)
        (A := fun w => Read simulationId start (some read) w ∧ NoTx t w)
        (fun h hrely => ⟨lasting_read.stable h.1 hrely, h.2.kept hrely.tx⟩)
        ⟨hread.2 _ rfl, hread.1⟩ (fun w hinv h => ⟨h.2, fun row hrow =>
          failed_of_changedBy hinv.db h.1 hrow (Text.length_clip_le _ _)⟩)
        fun choice r w w' hinv h hexec => ?_)
      have hlosing := losing_updateRow h.2 (fun row hrow =>
        (failed_of_changedBy hinv.db h.1 hrow (Text.length_clip_le _ _)).2) hexec
      cases r with
      | error e => exact ⟨hlosing.ownTx, fun _ _ => trivial⟩
      | ok u =>
          refine Safe.bind ((safe_commit_losing hlosing).mono fun r w hr => ?_)
          cases r with
          | error e => exact ⟨hr.1.ownTx, fun _ _ => trivial⟩
          | ok u => exact ⟨hr.1.ownTx, fun _ _ => trivial⟩
  · cases marked with
    | none => exact .pure fun _ _ => trivial
    | some idCommunity =>
        exact learns_calm (.ensuring (.bind (.perform rfl) fun _ => .perform rfl) (.perform rfl))

/-- A publish that raises marks the row. -/
theorem safe_publishOrMark {cleanup : Act F B Unit} {w : World F B} (hw : NoTx t w) (id : Nat)
    (hcleanup : cleanup.AllOps fun o => calm o = true) :
    (oneRun lib simulationId start keys readings).Safe t (fun _ _ => True)
      (publishOrMark id cleanup) w := by
  refine Safe.tryCatch ((learns_calm (.perform rfl) w hw).mono fun r w hr => ?_)
  cases r with
  | ok u => trivial
  | error e =>
      by_cases he : e.isException = true
      · simp only [he, if_true]
        refine Safe.bind ((learns_markFailedToQueue _ _ w hr.1).mono fun r w _ => ?_)
        cases r with
        | error e => trivial
        | ok u => exact safe_calm (.bind hcleanup fun _ => by trivial) w
      · simp only [he]
        trivial

/-- An insertion, committed. -/
theorem safe_createSimulation {w : World F B} (hw : NoTx t w) {model : SimulationModel}
    (hcreates : Creates simulationId start model) (hmodel : asCreated model = model) :
    (oneRun lib simulationId start keys readings).Safe t (fun r w => ∀ id, r = .ok id → NoTx t w)
      (createSimulation model) w := by
  refine Safe.bind (safe_perform (d := oneRun lib simulationId start keys readings) noTx_stable hw
    (fun _ _ _ => ⟨hcreates, hmodel⟩) fun choice r w w' _ h hexec => ?_)
  have hlosing := losing_insertRow h hmodel hexec
  cases r with
  | error e => exact fun _ h => by cases h
  | ok id =>
      refine Safe.bind ((safe_commit_losing hlosing).mono fun r w hr => ?_)
      cases r with
      | error e => exact fun _ h => by cases h
      | ok u => exact fun _ _ => hr.2 rfl

/-- What follows a committed insertion. -/
theorem safe_created {w : World F B} (hw : NoTx t w) (id : Nat) (entry : AuditEntry)
    {cleanup : Act F B Unit} (hcleanup : cleanup.AllOps fun o => calm o = true) (a : α) :
    (oneRun lib simulationId start keys readings).Safe t (fun _ _ => True)
      (do
        await (.logAudit .request entry)
        publishOrMark id cleanup
        pure a) w := by
  refine Safe.bind ((learns_calm (.perform rfl) w hw).mono fun r w hr => ?_)
  cases r with
  | error e => trivial
  | ok u =>
      refine Safe.bind ((safe_publishOrMark hr.1 id hcleanup).mono fun r w _ => ?_)
      cases r <;> trivial

/-- The upload of a start, under its key. -/
theorem safe_upload {w : World F B} {key : SourceKey} {content : B}
    (hupload : uploadOf start = some (key, content)) (hw : NoTx t w) :
    (oneRun lib simulationId start keys readings).Safe t (fun _ w => NoTx t w)
      (onException (await (.upload key content)) fun _ => reject .storageUploadFailed 502) w := by
  refine Safe.tryCatch (safe_perform (d := oneRun lib simulationId start keys readings) noTx_stable hw
    (fun _ _ _ => hupload) fun choice r w w' _ h hexec => ?_)
  have hnoTx := h.exec rfl hexec
  cases r with
  | ok u => exact hnoTx
  | error e =>
      simp only
      split
      · exact hnoTx
      · exact hnoTx

/-- The creation of a file's row; when it raises, the upload is deleted. -/
theorem safe_createOrDelete {w : World F B} (hw : NoTx t w) (key : SourceKey)
    {model : SimulationModel} (hcreates : Creates simulationId start model)
    (hmodel : asCreated model = model) :
    (oneRun lib simulationId start keys readings).Safe t (fun r w => ∀ id, r = .ok id → NoTx t w)
      (onException (createSimulation model) fun e => do
        await (.delete (some (.source key)))
        raise e) w := by
  refine Safe.tryCatch ((safe_createSimulation hw hcreates hmodel).mono fun r w hr => ?_)
  cases r with
  | ok id => exact hr
  | error e =>
      simp only
      split
      · refine Safe.bind ((safe_calm (.perform rfl) w).mono fun r w _ => ?_)
        cases r <;> exact fun _ h => by cases h
      · exact fun _ h => by cases h

/-- The file path sends the upload whose key its row will have. -/
theorem safe_startSimulation {w : World F B} {uuid : Uuid} {req : SimulateRequest}
    {file : UploadFile B} {community : Nat} (hw : NoTx t w) :
    (oneRun lib simulationId (.startSimulation uuid req file community) keys readings).Safe t
      (fun _ _ => True) (startSimulation lib simulationId uuid req file community) w := by
  refine Safe.bind ((learns_calm (.perform rfl) w hw).mono fun r w hr => ?_)
  rcases r with e | _ | key
  · trivial
  · trivial
  · have hread : Learns lib simulationId (.startSimulation uuid req file community) keys readings t
        (readWithinCap lib file) fun content _ => content = file.content := by
      refine Yields.bind (K := fun content _ => content = file.content) ?_ (fun _ => .always)
        fun content => ?_
      · refine learns_await rfl fun choice w w' content _ _ hexec => ?_
        exact (Except.ok.inj (Prod.mk.inj (Option.some.inj (exec_ok rfl hexec))).1).symm
      · split
        · exact .raise _
        · split
          · exact .raise _
          · exact .pure fun _ _ h => h
    refine Safe.bind ((hread w hr.1).mono fun r w hr => ?_)
    cases r with
    | error e => trivial
    | ok content =>
        obtain rfl := hr.2 content rfl
        by_cases hsize : uploadTooLarge lib key file.content (uploadName file) = true
        · simp only [hsize, if_true]
          trivial
        · simp only [hsize]
          refine Safe.bind ((safe_upload rfl hr.1).mono fun r w hw => ?_)
          cases r with
          | error e => trivial
          | ok u =>
              have hcreates : Creates simulationId (.startSimulation uuid req file community)
                  (fileModel simulationId req community key
                    { community := community, uuid := uuid, fileName := uploadName file }) :=
                ⟨key, rfl⟩
              refine Safe.bind ((safe_createOrDelete hw _ hcreates rfl).mono fun r w hr => ?_)
              cases r with
              | error e => trivial
              | ok id =>
                  refine safe_created (hr id rfl) id _ ?_ _
                  exact .perform rfl

theorem safe_startSimulationFromCrm {w : World F B} {req : SimulateFromCrmRequest}
    {community : Nat} (hw : NoTx t w) :
    (oneRun lib simulationId (.startSimulationFromCrm req community) keys readings).Safe t
      (fun _ _ => True) (startSimulationFromCrm simulationId req community : Act F B _) w := by
  refine Safe.bind ((learns_calm (.perform rfl) w hw).mono fun r w hr => ?_)
  rcases r with e | _ | key
  · trivial
  · trivial
  · have hpreview : (previewCrmData req.idKey req.idSharingOperation req.periodStart req.periodEnd
        community : Act F B (Preflight F)).AllOps fun o => calm o = true := by
      unfold previewCrmData
      split
      · trivial
      · refine .bind (.perform rfl) fun key => ?_
        cases key with
        | none => trivial
        | some key =>
            refine .bind (.perform rfl) fun found => ?_
            cases found with
            | false => trivial
            | true => exact .bind (.perform rfl) fun _ => trivial
    refine Safe.bind ((learns_calm hpreview w hr.1).mono fun r w hr => ?_)
    cases r with
    | error e => trivial
    | ok preflight =>
        cases hblockers : preflight.blockers with
        | cons first rest =>
            simp only [hblockers]
            trivial
        | nil =>
            simp only [hblockers]
            have hcreates : Creates simulationId (.startSimulationFromCrm req community : Entry F B)
                (crmModel simulationId req community key preflight) := ⟨key, preflight, rfl⟩
            refine Safe.bind ((safe_createSimulation hr.1 hcreates rfl).mono fun r w hr => ?_)
            cases r with
            | error e => trivial
            | ok id =>
                have hnothing : (pure () : Act F B Unit).AllOps fun o => calm o = true := trivial
                exact safe_created (hr id rfl) id _ hnothing _

/-! ### The entries -/

theorem polite_closeLocal (w : World F B) : (oneRun lib simulationId start keys readings).Safe t
    (fun _ _ => True) (await (.closeLocal .request)) w :=
  fun _ _ _ => ⟨trivial, fun _ _ _ _ => trivial⟩

theorem safe_answered {body : Act F B α} {w : World F B}
    (h : (oneRun lib simulationId start keys readings).Safe t (fun _ _ => True) body w) :
    (oneRun lib simulationId start keys readings).Safe t (fun _ _ => True) (answered body) w := by
  refine Safe.bind (Safe.ensuring (Safe.mono (Q := fun _ _ => True)
    (Safe.ensuring (h.mono fun _ w _ => (safe_calm (.perform rfl) w).mono fun r _ _ => ?_))
    fun outcome w _ => (polite_closeLocal w).mono fun r _ _ => ?_))
  · cases r <;> trivial
  · cases r with
    | ok u => cases outcome <;> trivial
    | error e => trivial

/-- What may enter: the start, deletions and deliveries. -/
def enters (start : Entry F B) : Entry F B → Prop
  | .startSimulation uuid req file community =>
    start = .startSimulation uuid req file community
  | .startSimulationFromCrm req community => start = .startSimulationFromCrm req community
  | .deleteSimulation _ | .deliver _ => True
  | .saveSuccess .. | .saveFailure _ => False

/-- The runs of one start, with any number of deletions and deliveries. -/
def startedBy (start : Entry F B) (_ : State lib simulationId) :
    System.Label (service lib simulationId) → Prop
  | .enter _ e => enters start e
  | _ => True

theorem safe_entered {e : Entry F B} {w w' : World F B} {p : Act F B Unit}
    (hallowed : enters start e) (hnoTx : NoTx t w)
    (henter : enter lib simulationId e w = some (w', p)) :
    (oneRun lib simulationId start keys readings).Safe t (fun _ _ => True) p w' := by
  obtain ⟨started, hw⟩ := enter_world henter
  have hnoTx : NoTx t w' := by
    rw [hw]
    exact hnoTx
  cases e with
  | startSimulation uuid req file community =>
      obtain rfl : start = _ := hallowed
      simp only [enter] at henter
      split_ifs at henter
      obtain ⟨-, rfl⟩ := Prod.mk.inj (Option.some.inj henter)
      exact safe_answered (safe_startSimulation hnoTx)
  | startSimulationFromCrm req community =>
      obtain rfl : start = _ := hallowed
      simp only [enter] at henter
      split_ifs at henter
      obtain ⟨-, rfl⟩ := Prod.mk.inj (Option.some.inj henter)
      exact safe_answered (safe_startSimulationFromCrm hnoTx)
  | deleteSimulation community =>
      obtain ⟨-, rfl⟩ := Prod.mk.inj (Option.some.inj henter)
      exact safe_answered (polite_deleteSimulation hnoTx _ _)
  | deliver delivered =>
      simp only [enter] at henter
      split_ifs at henter
      obtain ⟨-, rfl⟩ := Prod.mk.inj (Option.some.inj henter)
      exact (learns_handleMessage delivered w' hnoTx).mono fun _ _ _ => trivial
  | saveSuccess | saveFailure => exact hallowed.elim

end Triples

/-! ## Runs -/

section Runs

variable [PyFloat F] {lib : Libraries F B L} {simulationId : Nat} {start : Entry F B}
  {c c' : State lib simulationId} {h : List (System.Happening (service lib simulationId))}

/-- What the CRM holds at some moment of a run from `c`. -/
def Held (c : State lib simulationId) (h : List (System.Happening (service lib simulationId)))
    (crm : CrmState F) : Prop :=
  crm = c.world.crm ∨ System.Happening.event crm ∈ h

/-- Nothing has happened to the simulation yet: the upload's key is new, and the
temporary files are those below the counter. -/
structure Unstarted (start : Entry F B) (w : World F B) : Prop where
  fresh : w.Fresh
  upload : ∀ key content, uploadOf start = some (key, content) → w.storage.sources key = none
  files : ∀ path, w.files.next ≤ path → w.files.series path = none

theorem sound_of_run {keys : AllocationKeyModel F → Prop}
    {readings : List (MeterConsumption F) → Prop} (hidle : Idle c)
    (hstart : Unstarted start c.world)
    (hrun : (service lib simulationId).Runs (fun _ => startedBy start) c h c')
    (hoffers : ∀ crm, Held c h crm → Offers start keys readings crm) :
    (oneRun lib simulationId start keys readings).Sound
      (c'.confined (Offers start keys readings)) := by
  have hnone : ∀ tx, c.world.db.tx ≠ some tx := fun tx htx => by
    rw [hstart.fresh.tx] at htx
    cases htx
  have hnoRow : ∀ row, c.world.db.row ≠ some row := fun row hrow => by
    rw [hstart.fresh.row] at hrow
    cases hrow
  have hsound : (oneRun lib simulationId start keys readings).Sound
      (c.confined (Offers start keys readings)) := by
    refine ⟨⟨⟨fun row hrow => absurd hrow (hnoRow row), fun row hrow => absurd hrow (hnoRow row),
      fun row hrow => absurd hrow (hnoRow row), fun _ => hstart.fresh.trees,
      fun tx htx => absurd htx (hnone tx)⟩, fun row hrow => absurd hrow (hnoRow row),
      fun key content hupload content' hcontent => ?_, hoffers _ (Or.inl rfl), hstart.files⟩,
      fun t _ tx htx => absurd htx (hnone tx), fun t p htask => ?_⟩
    · have hcontent : c.world.storage.sources key = some content' := hcontent
      rw [hstart.upload key content hupload] at hcontent
      cases hcontent
    · have htask : c.tasks t = .running p := htask
      rw [hidle t] at htask
      cases htask
  refine reaches_sound hsound (fun c t e w p hallowed hinv hnoTx henter => ?_)
    (hrun.confined fun crm he => hoffers crm (Or.inr he))
  obtain ⟨-, hallowed⟩ := hallowed
  exact safe_entered hallowed hnoTx henter

/-- In every state of every run, a committed SUCCESS shows one run of its row:
the stored series are those of the result whose totals the one tree has. -/
theorem success_is_one_run (hidle : Idle c) (hstart : Unstarted start c.world)
    (hrun : (service lib simulationId).Runs (fun _ => startedBy start) c h c')
    {row : SimulationModel} (hrow : c'.world.db.row = some row)
    (hsuccess : row.status = .success) :
    ∃ result, Produces lib (fun key => ∃ crm, Held c h crm ∧ heldKey crm start = some key)
        (fun rows => ∃ crm, Held c h crm ∧ heldReadings crm start = some rows)
        ((uploadOf start).map (·.2)) row result ∧
      row.resultStorageKey = some (resultKeyOf simulationId row) ∧
      c'.world.storage.results (resultKeyOf simulationId row) = some result ∧
      c'.world.db.trees = [buildKeyResult (withoutSeries result) simulationId row.idCommunity] := by
  have hoffers : ∀ crm, Held c h crm → Offers start
      (fun key => ∃ crm, Held c h crm ∧ heldKey crm start = some key)
      (fun rows => ∃ crm, Held c h crm ∧ heldReadings crm start = some rows) crm :=
    fun crm hcrm => ⟨fun key hkey => ⟨crm, hcrm, hkey⟩, fun rows hrows => ⟨crm, hcrm, hrows⟩⟩
  have hsound := sound_of_run hidle hstart hrun hoffers
  obtain ⟨result, hproduces, hstored, htrees⟩ := hsound.inv.shown row hrow hsuccess
  have hconsistent := hsound.inv.db.consistent row hrow
  unfold Consistent at hconsistent
  rw [hsuccess] at hconsistent
  exact ⟨result, hproduces, hconsistent.2, hstored, htrees⟩

omit [PyFloat F] in
/-- The row that was created is gone, or has the columns it was created with. -/
def KeptAs (row : SimulationModel) (db : LocalDb F) : Prop :=
  Gone db ∨ ∃ now, db.row = some now ∧ asCreated now = asCreated row

/-- A step keeps what is not an outcome's. -/
theorem keptAs_next {keys : AllocationKeyModel F → Prop}
    {readings : List (MeterConsumption F) → Prop}
    {l : System.Label (service lib simulationId)} {row : SimulationModel}
    (hinv : Inv lib simulationId start keys readings c.world)
    (hnext : (service lib simulationId).next l c = some c') (h : KeptAs row c.world.db) :
    KeptAs row c'.world.db := by
  have hstep := dbStep_of_next hnext
  generalize c'.world.db = db at hstep ⊢
  cases hstep with
  | same | drop => exact h
  | move task hmove =>
      rcases h with hgone | ⟨now, hnow, hsame⟩
      · exact Or.inl ((DbKept.of_move hinv.db hmove).gone hgone)
      · rcases hmove.row with hrow | ⟨s, tx, rfl, hown, hcommitted⟩
        · exact Or.inr ⟨now, hrow.trans hnow, hsame⟩
        · cases hnew : tx.row with
          | none =>
              have hcreated := (DbKept.of_move hinv.db hmove).created (hinv.db.created now hnow)
              exact Or.inl ⟨hcreated, hcommitted.trans hnew⟩
          | some new =>
              have hstaged := hinv.db.staged tx ((LocalDb.own_eq_some _ _).mp hown).1 new hnew
              exact Or.inr ⟨new, hcommitted.trans hnew, (hstaged.same now hnow).trans hsame⟩

/-- In every state of every run the committed row is one that its start creates,
but for the columns of an outcome, which agree with each other; and it keeps the
others for as long as it is there. -/
theorem row_kept {c'' : State lib simulationId}
    {h' : List (System.Happening (service lib simulationId))} (hidle : Idle c)
    (hstart : Unstarted start c.world)
    (hrun : (service lib simulationId).Runs (fun _ => startedBy start) c h c')
    (hlater : (service lib simulationId).Runs (fun _ => startedBy start) c' h' c'')
    {row row' : SimulationModel} (hrow : c'.world.db.row = some row)
    (hrow' : c''.world.db.row = some row') :
    Creates simulationId start (asCreated row) ∧ Consistent simulationId row ∧
      asCreated row' = asCreated row := by
  have hinv : ∀ {h : List (System.Happening (service lib simulationId))}
      {c' : State lib simulationId},
      (service lib simulationId).Runs (fun _ => startedBy start) c h c' →
        Inv lib simulationId start (fun _ => True) (fun _ => True) c'.world := fun hrun =>
    (sound_of_run hidle hstart hrun fun _ _ => ⟨fun _ _ => trivial, fun _ _ => trivial⟩).inv
  refine ⟨(hinv hrun).db.creates row hrow, (hinv hrun).db.consistent row hrow, ?_⟩
  have hkept : KeptAs row c''.world.db := by
    clear hrow'
    induction hlater with
    | refl => exact Or.inr ⟨row, hrow, rfl⟩
    | tail run hallowed step ih => exact keptAs_next (hinv (hrun.trans run)) step ih
  rcases hkept with hgone | ⟨now, hnow, hsame⟩
  · rw [hgone.2] at hrow'
    cases hrow'
  · obtain rfl := Option.some.inj (hnow.symm.trans hrow')
    exact hsame

end Runs

/-! ## Two deliveries over a CRM that changes -/

/-- An empty store, and a CRM that describes its key so. -/
def emptyWorld (description : String) : World ℚ Unit :=
  { smallWorld none 0 description with
    storage := { sources := fun _ => none, results := fun _ => none } }

def smallStart : Entry ℚ Unit :=
  .startSimulation smallUuid { name := "run", idKey := 7, injectionName := "injection" }
    { content := (), filename := some "data.csv" } 3

theorem unstarted_emptyWorld : Unstarted smallStart (emptyWorld "d") :=
  { fresh := ⟨rfl, rfl, rfl, rfl, rfl, rfl, rfl, rfl, rfl⟩
    upload := fun _ _ _ => rfl
    files := fun _ _ => rfl }

/-- Two deliveries have solved, one before and one after the key changed; the
second one has committed and the first one's claim finds nothing. -/
def overtaken : List (System.Label (service smallLib 1)) :=
  .enter 0 smallStart ::
    (steps 0 9 ++ [.enter 1 (Entry.deliver (some 1)), .enter 2 (Entry.deliver (some 2))] ++
      steps 1 6 ++ [.event (emptyWorld "e").crm] ++ steps 2 6 ++ steps 1 1 ++ steps 2 5 ++
      steps 1 1)

/-- What enters is `smallStart`, or a delivery. -/
def ofSmallStart (_ : State smallLib 1) : System.Label (service smallLib 1) → Bool
  | .enter _ (.startSimulation uuid req file community) =>
    uuid = smallUuid ∧ req.name = "run" ∧ req.idKey = 7 ∧ req.injectionName = "injection" ∧
      file.filename = some "data.csv" ∧ community = 3
  | .enter _ (.deliver _) => true
  | .enter _ _ => false
  | _ => true

theorem startedBy_of_ofSmallStart {c : State smallLib 1} {l : System.Label (service smallLib 1)}
    (h : ofSmallStart c l = true) : startedBy smallStart c l := by
  cases l with
  | enter t e =>
      cases e with
      | startSimulation uuid req file community =>
          obtain ⟨name, idKey, injectionName⟩ := req
          obtain ⟨content, filename⟩ := file
          obtain ⟨rfl, rfl, rfl, rfl, rfl, rfl⟩ := of_decide_eq_true h
          rfl
      | deliver delivered => trivial
      | startSimulationFromCrm | deleteSimulation | saveSuccess | saveFailure => cases h
  | step | abort | event => trivial

theorem success_is_one_run_overtaken :
    ∃ (c : State smallLib 1) (h : List (System.Happening (service smallLib 1)))
      (row : SimulationModel), c.world.db.row = some row ∧ row.status = .success ∧
      c.world.db.trees.map (·.description) = ["e"] ∧
      ∃ result, Produces smallLib
          (fun key => ∃ crm, Held ⟨emptyWorld "d", fun _ => .idle⟩ h crm ∧
            heldKey crm smallStart = some key)
          (fun rows => ∃ crm, Held ⟨emptyWorld "d", fun _ => .idle⟩ h crm ∧
            heldReadings crm smallStart = some rows) (some ()) row result ∧
        row.resultStorageKey = some (resultKeyOf 1 row) ∧
        c.world.storage.results (resultKeyOf 1 row) = some result ∧
        c.world.db.trees = [buildKeyResult (withoutSeries result) 1 row.idCommunity] := by
  have hruns : ((System.runAll ofSmallStart overtaken ⟨emptyWorld "d", fun _ => .idle⟩).any
      fun c => c.world.db.row.any (·.status = .success) &&
        c.world.db.trees.map (·.description) = ["e"]) = true := by decide +kernel
  obtain ⟨c, hc, hend⟩ := (Option.any_eq_true _ _).mp hruns
  obtain ⟨hsuccess, htrees⟩ := Bool.and_eq_true_iff.mp hend
  obtain ⟨row, hrow, hsuccess⟩ := (Option.any_eq_true _ _).mp hsuccess
  have hrun := (System.runs_of_runAll hc).mono fun _ _ _ hl => startedBy_of_ofSmallStart hl
  exact ⟨c, _, row, hrow, of_decide_eq_true hsuccess, of_decide_eq_true htrees,
    success_is_one_run (fun _ => rfl) unstarted_emptyWorld hrun hrow (of_decide_eq_true hsuccess)⟩

/-- From the start's commit to the second delivery's. -/
theorem row_kept_overtaken :
    ∃ (c c' : State smallLib 1) (row row' : SimulationModel), row.status = .pending ∧
      row'.status = .success ∧ c.world.db.row = some row ∧ c'.world.db.row = some row' ∧
      Creates 1 smallStart (asCreated row) ∧ Consistent 1 row ∧ asCreated row' = asCreated row := by
  have hruns : ((System.runAll ofSmallStart (overtaken.take 6)
      ⟨emptyWorld "d", fun _ => .idle⟩).any fun c => c.world.db.row.any (·.status = .pending) &&
        (System.runAll ofSmallStart (overtaken.drop 6) c).any fun c' =>
          c'.world.db.row.any (·.status = .success)) = true := by decide +kernel
  obtain ⟨c, hc, hend⟩ := (Option.any_eq_true _ _).mp hruns
  obtain ⟨hpending, hlater⟩ := Bool.and_eq_true_iff.mp hend
  obtain ⟨row, hrow, hpending⟩ := (Option.any_eq_true _ _).mp hpending
  obtain ⟨c', hc', hsuccess⟩ := (Option.any_eq_true _ _).mp hlater
  obtain ⟨row', hrow', hsuccess⟩ := (Option.any_eq_true _ _).mp hsuccess
  have hrun := (System.runs_of_runAll hc).mono fun _ _ _ hl => startedBy_of_ofSmallStart hl
  have hrest := (System.runs_of_runAll hc').mono fun _ _ _ hl => startedBy_of_ofSmallStart hl
  exact ⟨c, c', row, row', of_decide_eq_true hpending, of_decide_eq_true hsuccess, hrow, hrow',
    row_kept (fun _ => rfl) unstarted_emptyWorld hrun hrest hrow hrow'⟩

end SimulationKey.OneRun
