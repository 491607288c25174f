import SimulationKey.Backend.Runs
import SimulationKey.Kit.Confined

/-!
# One run behind each success

What `Theorems/StoredRun.lean` asks of a simulation's row, and the discipline
that keeps it. The columns that a creation gives stay (`Creates`), the others
agree with each other (`Consistent`), and what a SUCCESS shows comes of one run
(`Produces`). A task may commit a SUCCESS only when its tree and the stored
object are of such a run; while it holds the claim no other task touches either.
-/

namespace SimulationKey.OneRun

open Kit Kit.Prog Kit.Discipline

variable {F B L : Type}

/-! ## What is asked -/

/-- The row as its creation had it. -/
def asCreated (row : SimulationModel) : SimulationModel :=
  { row with
    status := .pending
    errorMessage := none
    resultStorageKey := none }

@[simp] theorem asCreated_set (row : SimulationModel) (values : RowValues) :
    asCreated (row.set values) = asCreated row := rfl

/-- The upload that a start sends. -/
def uploadOf : Entry F B → Option (SourceKey × B)
  | .startSimulation uuid _ file community =>
    some ({ community := community, uuid := uuid, fileName := uploadName file }, file.content)
  | _ => none

/-- The rows that a start may insert. -/
def Creates (simulationId : Nat) : Entry F B → SimulationModel → Prop
  | .startSimulation uuid req file community, row => ∃ key : AllocationKeyModel F,
    row = fileModel simulationId req community key
      { community := community, uuid := uuid, fileName := uploadName file }
  | .startSimulationFromCrm req community, row =>
    ∃ (key : AllocationKeyModel F) (preflight : Preflight F),
      row = crmModel simulationId req community key preflight
  | _, _ => False

/-- The key that the CRM holds for a start. -/
def heldKey (crm : CrmState F) : Entry F B → Option (AllocationKeyModel F)
  | .startSimulation _ req _ community => crm.allocationKeys req.idKey community
  | .startSimulationFromCrm req community => crm.allocationKeys req.idKey community
  | _ => none

/-- The readings that the CRM holds for the period of a start. -/
def heldReadings (crm : CrmState F) : Entry F B → Option (List (MeterConsumption F))
  | .startSimulationFromCrm req community =>
    (sentBounds req.periodStart req.periodEnd).toOption.map fun bounds =>
      crm.meterConsumption community req.idSharingOperation bounds.1 bounds.2
  | _ => none

/-- The columns that an outcome sets agree. -/
def Consistent (simulationId : Nat) (row : SimulationModel) : Prop :=
  match row.status with
  | .pending => row.errorMessage = none ∧ row.resultStorageKey = none
  | .success =>
    row.errorMessage = none ∧ row.resultStorageKey = some (resultKeyOf simulationId row)
  | .failed => ∃ message, row.errorMessage = some message ∧ message.length ≤ errorMessageMaxLen

/-! ## What may come of it -/

section Outcome

variable [PyFloat F] (lib : Libraries F B L) (keys : AllocationKeyModel F → Prop)
  (readings : List (MeterConsumption F) → Prop) (content : Option B)

/-- A run of the row, for a key of `keys` and over the upload or readings of
`readings`. The two queries of a period may see different ones. -/
inductive Produces (row : SimulationModel) (result : KeySimResult F) : Prop where
  | file {key : AllocationKeyModel F} {bytes : B} {fileName : String} {table : DataFrame L F}
      (source : row.source = .file) (offered : keys key) (upload : content = some bytes)
      (name : row.fileName = some fileName) (parsed : parseFile lib bytes fileName = .ok table)
      (run : runFile lib.str key table (row.injectionName.getD "") = .ok result)
  | crm {key : AllocationKeyModel F} {seen fetched : List (MeterConsumption F)}
      {summary : CrmDataSummary F} {raw : SimulationRawData F} (source : row.source = .crm)
      (offered : keys key) (hseen : readings seen) (hfetched : readings fetched)
      (summarized : summarize seen = .ok summary)
      (loaded :
        let input := withTrimmedParticipants (fromCrmAllocationKey key)
        let preflight := evaluate summary (consumerNamesOf input) input.iterations.length
        loadRows preflight (if preflight.ok then fetchRows fetched else []) = .ok raw)
      (run : solve (withTrimmedParticipants (fromCrmAllocationKey key)) raw = .ok result)

variable {lib keys readings content}

/-- Over readings that do not change, the run is the one of these readings. -/
theorem Produces.runCrm {row : SimulationModel} {result : KeySimResult F}
    {rows : List (MeterConsumption F)} (h : Produces lib keys (· = rows) content row result)
    (hsource : row.source = .crm) : ∃ key, keys key ∧ runCrm key rows = .ok result := by
  cases h with
  | file source => cases hsource.symm.trans source
  | @crm key seen fetched summary raw source offered hseen hfetched summarized loaded run =>
      obtain rfl := hseen
      obtain rfl := hfetched
      rw [summarize_ok _ summarized] at loaded
      exact ⟨key, offered, runCrm_ok_iff.mpr ⟨raw, loaded, run⟩⟩

/-- The two loaders of `_process`, as one run. -/
theorem Produces.of_loadUpload {row : SimulationModel} {result : KeySimResult F}
    {key : AllocationKeyModel F} {bytes : B} {fileName : String} {raw : SimulationRawData F}
    (hsource : row.source = .file) (hkey : keys key) (hupload : content = some bytes)
    (hname : row.fileName = some fileName)
    (hload : loadUpload lib bytes fileName (row.injectionName.getD "")
      (consumerNamesOf (keyInputOf row.source key)) = .ok raw)
    (hrun : solve (keyInputOf row.source key) raw = .ok result) :
    Produces lib keys readings content row result := by
  rw [hsource] at hload hrun
  unfold loadUpload at hload
  cases hparse : parseFile lib bytes fileName with
  | error e =>
      rw [hparse] at hload
      cases hload
  | ok table =>
      rw [hparse] at hload
      refine .file hsource hkey hupload hname hparse ?_
      have hload : loadFile lib.str table (row.injectionName.getD "")
          (consumerNamesOf (fromCrmAllocationKey key)) = .ok raw := hload
      show (loadFile lib.str table (row.injectionName.getD "")
        (consumerNamesOf (fromCrmAllocationKey key)) >>= fun raw =>
          solve (fromCrmAllocationKey key) raw) = .ok result
      rw [hload]
      exact hrun

end Outcome

/-! ## The discipline -/

section Discipline

variable [PyFloat F] (lib : Libraries F B L) (simulationId : Nat) (start : Entry F B)
  (keys : AllocationKeyModel F → Prop) (readings : List (MeterConsumption F) → Prop)

/-- What the CRM holds is among `keys` and `readings`. -/
def Offers (crm : CrmState F) : Prop :=
  (∀ key, heldKey crm start = some key → keys key) ∧
    ∀ rows, heldReadings crm start = some rows → readings rows

/-- A run of the row. -/
abbrev Run (row : SimulationModel) (result : KeySimResult F) : Prop :=
  Produces lib keys readings ((uploadOf start).map (·.2)) row result

/-- The trees and the object are those of one run. -/
def Shown (store : ObjectStore F B) (row : SimulationModel)
    (trees : List (SimulationKeyResultModel F)) : Prop :=
  ∃ result, Run lib start keys readings row result ∧
    store.results (resultKeyOf simulationId row) = some result ∧
    trees = [buildKeyResult (withoutSeries result) simulationId row.idCommunity]

/-- A version of the row that a transaction may hold. -/
structure Staged (db : LocalDb F) (tx : Tx F) (row : SimulationModel) : Prop where
  creates : Creates simulationId start (asCreated row)
  consistent : Consistent simulationId row
  same : ∀ old, db.row = some old → asCreated row = asCreated old
  pending : row.status = .pending → db.created = false ∧ tx.trees = []
  success : row.status = .success → ∃ old, db.row = some old ∧ old.status = .pending
  failed : row.status = .failed → ∃ old, db.row = some old

/-- The row was created, and is gone. -/
def Gone (db : LocalDb F) : Prop := db.created = true ∧ db.row = none

/-- The row was created, and is gone or FAILED. -/
def Unsuccessful (db : LocalDb F) : Prop :=
  db.created = true ∧ ∀ row, db.row = some row → row.status = .failed

structure DbInv (db : LocalDb F) : Prop where
  created : ∀ row, db.row = some row → db.created = true
  creates : ∀ row, db.row = some row → Creates simulationId start (asCreated row)
  consistent : ∀ row, db.row = some row → Consistent simulationId row
  bare : (∀ row, db.row = some row → row.status = .pending) → db.trees = []
  staged : ∀ tx, db.tx = some tx → ∀ row, tx.row = some row → Staged simulationId start db tx row

structure Inv (w : World F B) : Prop where
  db : DbInv simulationId start w.db
  shown : ∀ row, w.db.row = some row → row.status = .success →
    Shown lib simulationId start keys readings w.storage row w.db.trees
  upload : ∀ key content, uploadOf start = some (key, content) →
    ∀ content', w.storage.sources key = some content' → content' = content
  crm : Offers start keys readings w.crm
  files : ∀ path, w.files.next ≤ path → w.files.series path = none

/-- The task holds a SUCCESS. -/
def Wins (t : Nat) (w : World F B) : Prop :=
  ∃ tx row, w.db.tx = some tx ∧ tx.owner.task = t ∧ tx.row = some row ∧ row.status = .success

/-- What a task can rely on: its transaction is its own, a row that is gone or
FAILED stays so, results are left alone while it holds a SUCCESS, and a file has
the series it was written with, or none. -/
structure Rely (t : Nat) (w w' : World F B) : Prop where
  tx : TxKept t w w'
  created : w.db.created = true → w'.db.created = true
  gone : Gone w.db → Gone w'.db
  unsuccessful : Unsuccessful w.db → Unsuccessful w'.db
  results : Wins t w → w'.storage.results = w.storage.results
  next : w.files.next ≤ w'.files.next
  series : ∀ path series, path < w.files.next → w'.files.series path = some series →
    w.files.series path = some series

/-- The values turn a PENDING row into one with an outcome. -/
def Decides (values : RowValues) : Prop :=
  ∀ row, Creates simulationId start (asCreated row) → Consistent simulationId row →
    row.status = .pending →
      Consistent simulationId (row.set values) ∧ (row.set values).status ≠ .pending

def Pre (t : Nat) : Op F B → World F B → Prop
  | .claim _ values, w => NoTx t w ∧ Decides simulationId start values
  | .updateRow _ values, w => NoTx t w ∧ ∀ row, w.db.row = some row →
    Consistent simulationId (row.set values) ∧ (row.set values).status = .failed
  | .insertRow _ row, _ => Creates simulationId start row ∧ asCreated row = row
  | .insertTree .., w => Wins t w
  | .uploadFile .., w => Wins t w
  | .commitLocal s, w => ∀ tx row, w.db.own ⟨t, s⟩ = some tx → tx.row = some row →
    row.status = .success → Shown lib simulationId start keys readings w.storage row tx.trees
  | .delete (some (.result _)), w => Gone w.db
  | .upload key content, _ => uploadOf start = some (key, content)
  | _, _ => True

/-! ## The local database -/

variable {lib simulationId start keys readings}

omit [PyFloat F] in
theorem DbInv.drop {db : LocalDb F} (h : DbInv simulationId start db) :
    DbInv simulationId start { db with tx := none } :=
  { created := h.created
    creates := h.creates
    consistent := h.consistent
    bare := h.bare
    staged := fun tx htx => by cases htx }

omit [PyFloat F] in
/-- Staging changes nothing that is committed. -/
theorem DbInv.stage {db : LocalDb F} (h : DbInv simulationId start db) {tx : Tx F}
    (hstaged : ∀ row, tx.row = some row → Staged simulationId start db tx row) :
    DbInv simulationId start { db with tx := some tx } := by
  refine ⟨h.created, h.creates, h.consistent, h.bare, fun tx' htx' row hrow => ?_⟩
  obtain rfl := Option.some.inj htx'
  have hrow := hstaged row hrow
  exact ⟨hrow.creates, hrow.consistent, hrow.same, hrow.pending, hrow.success, hrow.failed⟩

omit [PyFloat F] in
/-- A PENDING version is inserted, so no row is committed under it. -/
theorem Staged.none_of_pending {db : LocalDb F} (h : DbInv simulationId start db) {tx : Tx F}
    {row : SimulationModel} (hstaged : Staged simulationId start db tx row)
    (hpending : row.status = .pending) : db.row = none := by
  by_contra hrow
  obtain ⟨old, hold⟩ := Option.ne_none_iff_exists'.mp hrow
  have hcreated := h.created old hold
  rw [(hstaged.pending hpending).1] at hcreated
  cases hcreated

omit [PyFloat F] in
/-- What a commit installs. -/
theorem DbInv.commit {db : LocalDb F} (h : DbInv simulationId start db) {me : SessionId}
    {tx : Tx F} (hown : db.own me = some tx) : DbInv simulationId start (db.commit me) := by
  have hstaged := h.staged tx ((LocalDb.own_eq_some _ _).mp hown).1
  rw [LocalDb.commit_of_own hown]
  refine ⟨fun _ _ => rfl, fun row hrow => (hstaged row hrow).creates,
    fun row hrow => (hstaged row hrow).consistent, fun hpending => ?_, fun tx htx => by cases htx⟩
  cases hrow : tx.row with
  | none => rfl
  | some row =>
      have hstatus := hpending row hrow
      have hnone := (hstaged row hrow).none_of_pending h hstatus
      have htrees := h.bare fun row hrow => by rw [hnone] at hrow; cases hrow
      simp only [Option.isNone_some, Bool.false_eq_true, if_false, htrees,
        ((hstaged row hrow).pending hstatus).2, List.append_nil]

theorem DbInv.of_move {w : World F B} {t : Nat} {o : Op F B} {db : LocalDb F}
    (h : DbInv simulationId start w.db)
    (hpre : Pre lib simulationId start keys readings t o w) (hmove : DbMove t w.db o db) :
    DbInv simulationId start db := by
  cases hmove with
  | same => exact h
  | @claim s values row free visible pending =>
      obtain ⟨hnoTx, hdecides⟩ := hpre
      have hvisible := hnoTx.visible s
      have hrow : w.db.row = some row := hvisible ▸ visible
      obtain ⟨hconsistent, hstatus⟩ :=
        hdecides row (h.creates row hrow) (h.consistent row hrow) pending
      refine h.stage fun row' hrow' => ?_
      obtain rfl := Option.some.inj hrow'
      refine ⟨h.creates row hrow, hconsistent, fun old hold => ?_,
        fun hpending => absurd hpending hstatus, fun _ => ⟨row, hrow, pending⟩,
        fun _ => ⟨row, hrow⟩⟩
      obtain rfl := Option.some.inj (hrow.symm.trans hold)
      rfl
  | @update s values row sets free visible =>
      obtain ⟨hnoTx, hfails⟩ := hpre
      have hvisible := hnoTx.visible s
      have hrow : w.db.row = some row := hvisible ▸ visible
      obtain ⟨hconsistent, hfailed⟩ := hfails row hrow
      refine h.stage fun row' hrow' => ?_
      obtain rfl := Option.some.inj hrow'
      refine ⟨h.creates row hrow, hconsistent, fun old hold => ?_, fun hpending => ?_,
        fun hsuccess => ?_, fun _ => ⟨row, hrow⟩⟩
      · obtain rfl := Option.some.inj (hrow.symm.trans hold)
        rfl
      · cases hfailed.symm.trans hpending
      · cases hfailed.symm.trans hsuccess
  | @insert s row fresh free =>
      obtain ⟨hcreates, hsame⟩ := hpre
      have hown : w.db.own ⟨t, s⟩ = none := by simp [LocalDb.own, free]
      have hnone : ∀ old, w.db.row ≠ some old := fun old hold => by
        have hcreated := h.created old hold
        rw [fresh] at hcreated
        cases hcreated
      have hstatus : row.status = .pending := by rw [← hsame]; rfl
      refine h.stage fun row' hrow' => ?_
      obtain rfl := Option.some.inj hrow'
      refine ⟨by rw [hsame]; exact hcreates, ?_, fun old hold => absurd hold (hnone old),
        fun _ => ⟨fresh, by simp [hown]⟩, fun hsuccess => ?_, fun hfailed => ?_⟩
      · unfold Consistent
        rw [hstatus, ← hsame]
        exact ⟨rfl, rfl⟩
      · cases hstatus.symm.trans hsuccess
      · cases hstatus.symm.trans hfailed
  | delete free visible => exact h.stage fun row hrow => by cases hrow
  | @tree s tx tree own =>
      obtain ⟨tx', row, htx', -, hrow, hsuccess⟩ := hpre
      obtain ⟨htx, -⟩ := (LocalDb.own_eq_some _ _).mp own
      obtain rfl := Option.some.inj (htx'.symm.trans htx)
      have hstaged := h.staged _ htx
      refine h.stage fun row' hrow' => ?_
      have hold := hstaged row' hrow'
      refine ⟨hold.creates, hold.consistent, hold.same, fun hpending => ?_, hold.success,
        hold.failed⟩
      obtain rfl := Option.some.inj (hrow.symm.trans hrow')
      cases hsuccess.symm.trans hpending
  | commit s =>
      cases hown : w.db.own ⟨t, s⟩ with
      | none =>
          rw [LocalDb.commit_of_not_own hown]
          exact h
      | some tx => exact h.commit hown
  | rollback s =>
      cases hown : w.db.own ⟨t, s⟩ with
      | none =>
          rw [LocalDb.rollback_of_not_own hown]
          exact h
      | some tx =>
          rw [LocalDb.rollback_of_own hown]
          exact h.drop

/-- What a step keeps of the local database: a row that is gone or FAILED stays
so. -/
structure DbKept (db db' : LocalDb F) : Prop where
  created : db.created = true → db'.created = true
  gone : Gone db → Gone db'
  unsuccessful : Unsuccessful db → Unsuccessful db'

omit [PyFloat F] in
theorem DbKept.of_row {db db' : LocalDb F} (hrow : db'.row = db.row)
    (hcreated : db'.created = db.created) : DbKept db db' :=
  { created := fun h => hcreated ▸ h
    gone := fun h => ⟨hcreated ▸ h.1, hrow ▸ h.2⟩
    unsuccessful := fun h => ⟨hcreated ▸ h.1, fun row hcommitted => h.2 row (hrow ▸ hcommitted)⟩ }

omit [PyFloat F] in
theorem DbKept.of_move {w : World F B} {t : Nat} {o : Op F B} {db : LocalDb F}
    (h : DbInv simulationId start w.db) (hmove : DbMove t w.db o db) : DbKept w.db db := by
  cases hmove with
  | same | claim | update | insert | delete | tree => exact .of_row rfl rfl
  | rollback s =>
      refine .of_row w.db.rollback_row ?_
      cases hown : w.db.own ⟨t, s⟩ with
      | none => rw [LocalDb.rollback_of_not_own hown]
      | some tx => rw [LocalDb.rollback_of_own hown]
  | commit s =>
      cases hown : w.db.own ⟨t, s⟩ with
      | none =>
          rw [LocalDb.commit_of_not_own hown]
          exact .of_row rfl rfl
      | some tx =>
          have hstaged := h.staged tx ((LocalDb.own_eq_some _ _).mp hown).1
          rw [LocalDb.commit_of_own hown]
          refine ⟨fun _ => rfl, fun hgone => ⟨rfl, ?_⟩,
            fun hunsuccessful => ⟨rfl, fun row hrow => ?_⟩⟩
          · -- every version but an insertion's has a committed row under it
            by_contra hsome
            obtain ⟨row, hrow⟩ := Option.ne_none_iff_exists'.mp hsome
            have hrow : tx.row = some row := hrow
            have hold : ∃ old, w.db.row = some old := by
              cases hstatus : row.status with
              | pending =>
                  have hfresh := ((hstaged row hrow).pending hstatus).1
                  rw [hgone.1] at hfresh
                  cases hfresh
              | success =>
                  obtain ⟨old, hold, -⟩ := (hstaged row hrow).success hstatus
                  exact ⟨old, hold⟩
              | failed => exact (hstaged row hrow).failed hstatus
            obtain ⟨old, hold⟩ := hold
            rw [hgone.2] at hold
            cases hold
          · have hrow : tx.row = some row := hrow
            cases hstatus : row.status with
            | pending =>
                have hfresh := ((hstaged row hrow).pending hstatus).1
                rw [hunsuccessful.1] at hfresh
                cases hfresh
            | success =>
                obtain ⟨old, hold, hpending⟩ := (hstaged row hrow).success hstatus
                cases (hunsuccessful.2 old hold).symm.trans hpending
            | failed => rfl

/-! ## The store and the files -/

omit [PyFloat F] in
/-- A task that holds a SUCCESS is over a committed PENDING row. -/
theorem Wins.pending {w : World F B} {t : Nat} (h : Wins t w)
    (hinv : DbInv simulationId start w.db) :
    ∃ old, w.db.row = some old ∧ old.status = .pending := by
  obtain ⟨tx, row, htx, -, hrow, hsuccess⟩ := h
  exact (hinv.staged tx htx row hrow).success hsuccess

omit [PyFloat F] in
/-- Two tasks do not hold a SUCCESS at once. -/
theorem Wins.unique {w : World F B} {t t' : Nat} (h : Wins t w) (h' : Wins t' w) : t = t' := by
  obtain ⟨tx, -, htx, howner, -⟩ := h
  obtain ⟨tx', -, htx', howner', -⟩ := h'
  obtain rfl := Option.some.inj (htx.symm.trans htx')
  exact howner.symm.trans howner'

/-- A commit of a SUCCESS shows its run; other moves leave what is committed. -/
theorem shown_of_move {w : World F B} {t : Nat} {o : Op F B} {db : LocalDb F}
    (h : Inv lib simulationId start keys readings w)
    (hpre : Pre lib simulationId start keys readings t o w) (hmove : DbMove t w.db o db) :
    ∀ row, db.row = some row → row.status = .success →
      Shown lib simulationId start keys readings w.storage row db.trees := by
  cases hmove with
  | same | claim | update | insert | delete | tree => exact h.shown
  | rollback s =>
      cases hown : w.db.own ⟨t, s⟩ with
      | none =>
          rw [LocalDb.rollback_of_not_own hown]
          exact h.shown
      | some tx =>
          rw [LocalDb.rollback_of_own hown]
          exact h.shown
  | commit s =>
      cases hown : w.db.own ⟨t, s⟩ with
      | none =>
          rw [LocalDb.commit_of_not_own hown]
          exact h.shown
      | some tx =>
          rw [LocalDb.commit_of_own hown]
          intro row hrow hsuccess
          have hrow : tx.row = some row := hrow
          have htx := ((LocalDb.own_eq_some _ _).mp hown).1
          obtain ⟨old, hold, hpending⟩ := (h.db.staged tx htx row hrow).success hsuccess
          have htrees := h.db.bare fun row' hrow' => by
            obtain rfl := Option.some.inj (hold.symm.trans hrow')
            exact hpending
          have hshown := hpre tx row hown hrow hsuccess
          simpa only [hrow, Option.isNone_some, Bool.false_eq_true, if_false, htrees,
            List.nil_append] using hshown

/-- A move of the store leaves the results of a committed SUCCESS, and of a task
that is about to commit one. -/
theorem results_of_move {w : World F B} {t : Nat} {o : Op F B} {store : ObjectStore F B}
    (h : Inv lib simulationId start keys readings w)
    (hpre : Pre lib simulationId start keys readings t o w) (hmove : StoreMove w.storage o store) :
    ((∃ row, w.db.row = some row ∧ row.status = .success) ∨ ∃ t', t' ≠ t ∧ Wins t' w) →
      store.results = w.storage.results := by
  rintro hneeded
  cases hmove with
  | source => rfl
  | result key path series =>
      have hwins : Wins t w := hpre
      rcases hneeded with ⟨row, hrow, hsuccess⟩ | ⟨t', hne, hwins'⟩
      · obtain ⟨old, hold, hpending⟩ := hwins.pending h.db
        obtain rfl := Option.some.inj (hrow.symm.trans hold)
        cases hsuccess.symm.trans hpending
      · exact absurd (hwins'.unique hwins) hne
  | delete key =>
      cases key with
      | none => rfl
      | some key =>
          cases key with
          | source key => rfl
          | result key =>
              have hgone : Gone w.db := hpre
              rcases hneeded with ⟨row, hrow, -⟩ | ⟨t', -, hwins'⟩
              · rw [hgone.2] at hrow
                cases hrow
              · obtain ⟨old, hold, -⟩ := hwins'.pending h.db
                rw [hgone.2] at hold
                cases hold

/-- The upload's key holds the upload, or nothing. -/
theorem upload_of_move {w : World F B} {t : Nat} {o : Op F B} {store : ObjectStore F B}
    (h : Inv lib simulationId start keys readings w)
    (hpre : Pre lib simulationId start keys readings t o w) (hmove : StoreMove w.storage o store) :
    ∀ key content, uploadOf start = some (key, content) →
      ∀ content', store.sources key = some content' → content' = content := by
  intro key content hupload content' hcontent
  cases hmove with
  | source key' content'' =>
      have hpre : uploadOf start = some (key', content'') := hpre
      obtain ⟨rfl, rfl⟩ := Prod.mk.inj (Option.some.inj (hupload.symm.trans hpre))
      simpa [ObjectStore.putSource, eq_comm] using hcontent
  | result => exact h.upload key content hupload content' hcontent
  | delete key' =>
      cases key' with
      | none => exact h.upload key content hupload content' hcontent
      | some key' =>
          cases key' with
          | result key' => exact h.upload key content hupload content' hcontent
          | source key' =>
              have hcontent : Function.update w.storage.sources key' none key = some content' :=
                hcontent
              by_cases heq : key = key'
              · subst heq
                simp at hcontent
              · rw [Function.update_of_ne heq] at hcontent
                exact h.upload key content hupload content' hcontent

/-- What a step can do to the temporary files: none below the counter is written
again, and none is at or above it. -/
structure FilesKept (files files' : TempFiles F) : Prop where
  next : files.next ≤ files'.next
  series : ∀ path series, path < files.next → files'.series path = some series →
    files.series path = some series
  above : (∀ path, files.next ≤ path → files.series path = none) →
    ∀ path, files'.next ≤ path → files'.series path = none

omit [PyFloat F] in
theorem FilesKept.refl (files : TempFiles F) : FilesKept files files :=
  ⟨le_rfl, fun _ _ _ h => h, id⟩

omit [PyFloat F] in
theorem FilesKept.write (files : TempFiles F) (result : KeySimResult F) :
    FilesKept files
      { series := Function.update files.series files.next (some result)
        next := files.next + 1 } where
  next := Nat.le_succ _
  series := fun path series hlt hseries =>
    (Function.update_of_ne (Nat.ne_of_lt hlt) _ _).symm.trans hseries
  above := fun habove path hle => by
    have hlt : files.next < path := hle
    exact (Function.update_of_ne (Nat.ne_of_gt hlt) _ _).trans (habove path hlt.le)

omit [PyFloat F] in
theorem FilesKept.remove (files : TempFiles F) (path : Nat) :
    FilesKept files { files with series := Function.update files.series path none } where
  next := le_rfl
  series := fun path' series _ hseries => by
    by_cases heq : path' = path
    · subst heq
      simp at hseries
    · exact (Function.update_of_ne heq _ _).symm.trans hseries
  above := fun habove path' hle => by
    by_cases heq : path' = path
    · subst heq
      simp
    · exact (Function.update_of_ne heq _ _).trans (habove path' hle)

theorem filesKept_answer {t : Nat} {o : Op F B} {w w' : World F B} {r : Except Exn o.Resp}
    (h : answer t o w = some (r, w')) : FilesKept w.files w'.files := by
  have hsame : ∀ {r₀ : Except Exn o.Resp} {w₀ : World F B}, some (r₀, w₀) = some (r, w') →
      w₀.files = w.files → FilesKept w.files w'.files := by
    intro r₀ w₀ heq hfiles
    obtain ⟨-, rfl⟩ := Prod.mk.inj (Option.some.inj heq)
    exact hfiles ▸ .refl _
  cases o
  case runSimulation key raw =>
    simp only [answer] at h
    split at h
    · exact hsame h rfl
    · obtain ⟨-, rfl⟩ := Prod.mk.inj (Option.some.inj h)
      exact .write _ _
  case remove path =>
    obtain ⟨-, rfl⟩ := Prod.mk.inj (Option.some.inj h)
    exact .remove _ _
  case claim s values | updateRow s values | insertRow s row | deleteRow s | insertTree s tree =>
    obtain ⟨x, -, heq⟩ := Option.map_eq_some_iff.mp h
    obtain ⟨-, rfl⟩ := Prod.mk.inj heq
    exact .refl _
  case summarize | fetchRows | uploadFile | download =>
    simp only [answer] at h
    split at h <;> exact hsame h rfl
  all_goals exact hsame h rfl

theorem filesKept_exec {choice : Choice} {t : Nat} {o : Op F B} {w w' : World F B}
    {r : Except Exn o.Resp} (h : exec choice t o w = some (r, w')) :
    FilesKept w.files w'.files := by
  cases choice with
  | ok => exact filesKept_answer h
  | fail e =>
      simp only [exec] at h
      split_ifs at h
      obtain ⟨-, rfl⟩ := Prod.mk.inj (Option.some.inj h)
      exact .refl _
  | lost e =>
      simp only [exec] at h
      split_ifs at h
      obtain ⟨x, hx, heq⟩ := Option.map_eq_some_iff.mp h
      obtain ⟨-, rfl⟩ := Prod.mk.inj heq
      exact filesKept_answer hx
  | swallowed =>
      obtain ⟨a, -, heq⟩ := Option.map_eq_some_iff.mp h
      obtain ⟨-, rfl⟩ := Prod.mk.inj heq
      exact .refl _

/-! ## Steps -/

theorem exec_sound {choice : Choice} {t : Nat} {o : Op F B} {w w' : World F B}
    {r : Except Exn o.Resp} (h : Inv lib simulationId start keys readings w)
    (hpre : Pre lib simulationId start keys readings t o w)
    (hexec : exec choice t o w = some (r, w')) :
    Inv lib simulationId start keys readings w' ∧ ∀ t', t' ≠ t → Rely t' w w' := by
  have heffect := exec_effect hexec
  have hkept := DbKept.of_move h.db heffect.toDb
  have hfiles := filesKept_exec hexec
  have hresults : ((∃ row, w.db.row = some row ∧ row.status = .success) ∨
      ∃ t', t' ≠ t ∧ Wins t' w) → w'.storage.results = w.storage.results := by
    intro hneeded
    cases heffect with
    | storage hmove => exact results_of_move h hpre hmove hneeded
    | none | db | audit | nats | files | finished => rfl
  constructor
  · refine ⟨DbInv.of_move h.db hpre heffect.toDb, ?_, ?_, ?_, hfiles.above h.files⟩
    · cases heffect with
      | db hmove =>
          have hshown := shown_of_move h hpre hmove
          exact hshown
      | storage hmove =>
          intro row hrow hsuccess
          obtain ⟨result, hrun, hstored, htrees⟩ := h.shown row hrow hsuccess
          refine ⟨result, hrun, ?_, htrees⟩
          rw [hresults (Or.inl ⟨row, hrow, hsuccess⟩)]
          exact hstored
      | none | audit | nats | files | finished => exact h.shown
    · cases heffect with
      | storage hmove =>
          have hupload := upload_of_move h hpre hmove
          exact hupload
      | none | db | audit | nats | files | finished => exact h.upload
    · cases heffect with
      | none | db | audit | storage | nats | files | finished => exact h.crm
  · intro t' hne
    exact
      { tx := fun tx howner => heffect.toDb.others (by rw [howner]; exact hne)
        created := hkept.created
        gone := hkept.gone
        unsuccessful := hkept.unsuccessful
        results := fun hwins => hresults (Or.inr ⟨t', hne, hwins⟩)
        next := hfiles.next
        series := hfiles.series }

omit [PyFloat F] in
/-- A step that changes at most the CRM and what is started. -/
theorem Rely.of_same {t : Nat} {w w' : World F B} (hdb : w'.db = w.db)
    (hstorage : w'.storage = w.storage) (hfiles : w'.files = w.files) : Rely t w w' :=
  { tx := fun tx _ => by rw [hdb]
    created := fun h => hdb ▸ h
    gone := fun h => hdb ▸ h
    unsuccessful := fun h => hdb ▸ h
    results := fun _ => by rw [hstorage]
    next := by rw [hfiles]
    series := fun path series _ h => hfiles ▸ h }

omit [PyFloat F] in
theorem Wins.rely {t : Nat} {w w' : World F B} (h : Wins t w) (hrely : Rely t w w') :
    Wins t w' := by
  obtain ⟨tx, row, htx, howner, hrest⟩ := h
  exact ⟨tx, row, (hrely.tx tx howner).mp htx, howner, hrest⟩

omit [PyFloat F] in
theorem Rely.trans {t : Nat} {w w' w'' : World F B} (h : Rely t w w') (h' : Rely t w' w'') :
    Rely t w w'' :=
  { tx := fun tx howner => (h.tx tx howner).trans (h'.tx tx howner)
    created := fun hcreated => h'.created (h.created hcreated)
    gone := fun hgone => h'.gone (h.gone hgone)
    unsuccessful := fun hunsuccessful => h'.unsuccessful (h.unsuccessful hunsuccessful)
    results := fun hwins => (h'.results (hwins.rely h)).trans (h.results hwins)
    next := h.next.trans h'.next
    series := fun path series hlt hseries =>
      h.series path series hlt (h'.series path series (hlt.trans_le h.next) hseries) }

theorem abort_sound {t : Nat} {w : World F B} (h : Inv lib simulationId start keys readings w) :
    Inv lib simulationId start keys readings (w.abort t) ∧
      ∀ t', t' ≠ t → Rely t' w (w.abort t) := by
  have hothers : ∀ t', t' ≠ t → ∀ tx : Tx F, tx.owner.task = t' →
      (w.db.tx = some tx ↔ (w.abort t).db.tx = some tx) := fun t' hne tx howner =>
    World.abort_others (by rw [howner]; exact hne)
  have hrow : (w.abort t).db.row = w.db.row ∧ (w.abort t).db.created = w.db.created ∧
      (w.abort t).db.trees = w.db.trees ∧ DbInv simulationId start (w.abort t).db := by
    rcases World.abort_db t w with hsame | ⟨tx, -, -, hdrop⟩
    · rw [hsame]
      exact ⟨rfl, rfl, rfl, h.db⟩
    · rw [hdrop]
      exact ⟨rfl, rfl, rfl, h.db.drop⟩
  obtain ⟨hrow, hcreated, htrees, hdb⟩ := hrow
  have hkept := DbKept.of_row hrow hcreated
  refine ⟨⟨hdb, fun row hcommitted hsuccess => ?_, h.upload, h.crm, h.files⟩, fun t' hne => ?_⟩
  · rw [htrees]
    exact h.shown row (hrow ▸ hcommitted) hsuccess
  · exact
      { tx := hothers t' hne
        created := hkept.created
        gone := hkept.gone
        unsuccessful := hkept.unsuccessful
        results := fun _ => rfl
        next := le_rfl
        series := fun _ _ _ hseries => hseries }

variable (lib simulationId start keys readings) in
/-- The service over a CRM that holds nothing but `keys` and `readings`. -/
abbrev offering : System (Op F B) Op.Resp Exn :=
  (service lib simulationId).confined (Offers start keys readings)

variable (lib simulationId start keys readings) in
def oneRun : Discipline (offering lib simulationId start keys readings) where
  inv := Inv lib simulationId start keys readings
  rely := Rely
  unstarted := NoTx
  pre := Pre lib simulationId start keys readings
  unstarted_rely := fun h hrely => h.kept hrely.tx
  rely_refl := fun _ _ => Rely.of_same rfl rfl rfl
  rely_trans := Rely.trans
  exec_sound := exec_sound
  enter_sound := fun h henter => by
    obtain ⟨started, rfl⟩ := enter_world henter
    exact ⟨⟨h.db, h.shown, h.upload, h.crm, h.files⟩, fun _ => Rely.of_same rfl rfl rfl⟩
  abort_sound := abort_sound
  event_sound := fun {crm w} h =>
    ⟨⟨h.db, h.shown, h.upload, crm.2, h.files⟩, fun _ => Rely.of_same rfl rfl rfl⟩

end Discipline

/-! ## Rows of one start -/

section Created

variable {simulationId : Nat} {start : Entry F B} {row row' : SimulationModel}

/-- Two rows of one start have their result under one key. -/
theorem resultKeyOf_eq (h : Creates simulationId start row) (h' : Creates simulationId start row') :
    resultKeyOf simulationId row = resultKeyOf simulationId row' := by
  cases start with
  | startSimulation uuid req file community =>
      obtain ⟨key, rfl⟩ := h
      obtain ⟨key', rfl⟩ := h'
      rfl
  | startSimulationFromCrm req community =>
      obtain ⟨key, preflight, rfl⟩ := h
      obtain ⟨key', preflight', rfl⟩ := h'
      rfl
  | deleteSimulation | deliver | saveSuccess | saveFailure => exact h.elim

/-- The columns of a row that its run looks at. -/
structure SameInput (row row' : SimulationModel) : Prop where
  source : row.source = row'.source
  fileName : row.fileName = row'.fileName
  injectionName : row.injectionName = row'.injectionName

theorem sameInput_of_creates (h : Creates simulationId start (asCreated row))
    (h' : Creates simulationId start (asCreated row')) : SameInput row row' := by
  cases start with
  | startSimulation uuid req file community =>
      obtain ⟨key, hrow⟩ := h
      obtain ⟨key', hrow'⟩ := h'
      exact ⟨(congrArg (·.source) hrow).trans (congrArg (·.source) hrow').symm,
        (congrArg (·.fileName) hrow).trans (congrArg (·.fileName) hrow').symm,
        (congrArg (·.injectionName) hrow).trans (congrArg (·.injectionName) hrow').symm⟩
  | startSimulationFromCrm req community =>
      obtain ⟨key, preflight, hrow⟩ := h
      obtain ⟨key', preflight', hrow'⟩ := h'
      exact ⟨(congrArg (·.source) hrow).trans (congrArg (·.source) hrow').symm,
        (congrArg (·.fileName) hrow).trans (congrArg (·.fileName) hrow').symm,
        (congrArg (·.injectionName) hrow).trans (congrArg (·.injectionName) hrow').symm⟩
  | deleteSimulation | deliver | saveSuccess | saveFailure => exact h.elim

theorem Produces.of_same [PyFloat F] {lib : Libraries F B L} {keys : AllocationKeyModel F → Prop}
    {readings : List (MeterConsumption F) → Prop} {content : Option B} {result : KeySimResult F}
    (h : Produces lib keys readings content row result) (hsame : SameInput row row') :
    Produces lib keys readings content row' result := by
  cases h with
  | file source offered upload name parsed run =>
      exact .file (hsame.source ▸ source) offered upload (hsame.fileName ▸ name) parsed
        (hsame.injectionName ▸ run)
  | crm source offered hseen hfetched summarized loaded run =>
      exact .crm (hsame.source ▸ source) offered hseen hfetched summarized loaded run

/-- The upload of a row is the one that its start sent. -/
theorem uploadOf_of_key {key : SourceKey} (h : Creates simulationId start (asCreated row))
    (hkey : row.fileStorageKey = some key) : ∃ content, uploadOf start = some (key, content) := by
  cases start with
  | startSimulation uuid req file community =>
      obtain ⟨model, hrow⟩ := h
      have hstored := hkey.symm.trans (congrArg (·.fileStorageKey) hrow)
      obtain rfl := Option.some.inj hstored
      exact ⟨file.content, rfl⟩
  | startSimulationFromCrm req community =>
      obtain ⟨model, preflight, hrow⟩ := h
      cases hkey.symm.trans (congrArg (·.fileStorageKey) hrow)
  | deleteSimulation | deliver | saveSuccess | saveFailure => exact h.elim

/-- The key a row names is the one its start named. -/
theorem heldKey_eq (crm : CrmState F) (h : Creates simulationId start (asCreated row)) :
    crm.allocationKeys row.idKey row.idCommunity = heldKey crm start := by
  cases start with
  | startSimulation uuid req file community =>
      obtain ⟨key, hrow⟩ := h
      have hidKey : row.idKey = req.idKey := congrArg (·.idKey) hrow
      have hcommunity : row.idCommunity = community := congrArg (·.idCommunity) hrow
      rw [hidKey, hcommunity]
      rfl
  | startSimulationFromCrm req community =>
      obtain ⟨key, preflight, hrow⟩ := h
      have hidKey : row.idKey = req.idKey := congrArg (·.idKey) hrow
      have hcommunity : row.idCommunity = community := congrArg (·.idCommunity) hrow
      rw [hidKey, hcommunity]
      rfl
  | deleteSimulation | deliver | saveSuccess | saveFailure => exact h.elim

/-- The readings of a row's period are those of its start's. -/
theorem heldReadings_eq (crm : CrmState F) (h : Creates simulationId start (asCreated row))
    {op first last : Nat} {bounds : Nat × Nat} (hop : row.idSharingOperation = some op)
    (hfirst : row.periodStart = some first) (hlast : row.periodEnd = some last)
    (hbounds : sentBounds first last = .ok bounds) :
    heldReadings crm start = some (crm.meterConsumption row.idCommunity op bounds.1 bounds.2) := by
  cases start with
  | startSimulation uuid req file community =>
      obtain ⟨key, hrow⟩ := h
      cases hop.symm.trans (congrArg (·.idSharingOperation) hrow)
  | startSimulationFromCrm req community =>
      obtain ⟨key, preflight, hrow⟩ := h
      have hcommunity : row.idCommunity = community := congrArg (·.idCommunity) hrow
      obtain rfl : op = req.idSharingOperation :=
        Option.some.inj (hop.symm.trans (congrArg (·.idSharingOperation) hrow))
      obtain rfl : first = req.periodStart :=
        Option.some.inj (hfirst.symm.trans (congrArg (·.periodStart) hrow))
      obtain rfl : last = req.periodEnd :=
        Option.some.inj (hlast.symm.trans (congrArg (·.periodEnd) hrow))
      rw [hcommunity, heldReadings, hbounds]
      rfl
  | deleteSimulation | deliver | saveSuccess | saveFailure => exact h.elim

end Created

end SimulationKey.OneRun
