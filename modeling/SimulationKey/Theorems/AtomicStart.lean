import SimulationKey.Backend.Runs
import SimulationKey.Worker.Alone

/-!
# A start is all or nothing

Any step of a start may raise, without effect, or have its audit entry
dropped; what repairs a failure works. However many steps do, the request
leaves nothing, a PENDING row with its upload and its event, or a FAILED row.
-/

namespace SimulationKey.Theorems.AtomicStart

open Kit Kit.Prog

variable {F B L α : Type} {t : Nat}

/-! ## Steps that fail -/

/-- The steps of a start that may fail. -/
def fallible : Op F B → Bool
  | .getAllocationKey .. | .readUpload _ | .sharingOperationExists .. | .summarize .. => true
  | .upload .. | .insertRow .request _ | .commitLocal .request | .publish .. => true
  | .logAudit .request _ => true
  | _ => false

section Start

variable [PyFloat F]

/-- An operation goes through, raises without effect, or drops its entry. -/
inductive MayFail (t : Nat) (o : Op F B) (w : World F B) : Except Exn o.Resp → World F B → Prop where
  | goes {r : Except Exn o.Resp} {w' : World F B} (h : answer t o w = some (r, w')) :
      MayFail t o w r w'
  | fails {e : Exn} (step : fallible o = true) (raises : o.raises e = true)
      (exception : e.isException = true) : MayFail t o w (.error e) w
  | drops {a : o.Resp} (step : fallible o = true) (h : o.swallows = some a) :
      MayFail t o w (.ok a) w

theorem always_step {o : Op F B} {w w' : World F B} {r : Except Exn o.Resp}
    {Q : Except Exn o.Resp → World F B → Prop} (hgo : answer t o w = some (r, w')) (h : Q r w')
    (hfails : fallible o = true → ∀ e, o.raises e = true → e.isException = true → Q (.error e) w)
    (hdrops : fallible o = true → ∀ a, o.swallows = some a → Q (.ok a) w) :
    Always (MayFail t) (await o) w Q := by
  refine .perform ⟨r, w', .goes hgo⟩ fun r' w'' hmay => ?_
  cases hmay with
  | goes h' =>
      obtain ⟨rfl, rfl⟩ := Prod.mk.inj (Option.some.inj (hgo.symm.trans h'))
      exact h
  | fails step raises exception => exact hfails step _ raises exception
  | drops step h' => exact hdrops step _ h'

/-- Going on after a step. -/
theorem always_step_bind {β : Type} {o : Op F B} {w w' : World F B} {a : o.Resp}
    {f : o.Resp → Act F B β} {Q : Except Exn β → World F B → Prop}
    (hgo : answer t o w = some (.ok a, w')) (h : Always (MayFail t) (f a) w' Q)
    (hfails : fallible o = true → ∀ e, o.raises e = true → e.isException = true → Q (.error e) w)
    (hdrops : fallible o = true → ∀ a, o.swallows = some a → Always (MayFail t) (f a) w Q) :
    Always (MayFail t) (await o >>= f) w Q := by
  refine Always.bind (Q := fun r w'' => match r with
    | .ok a => Always (MayFail t) (f a) w'' Q
    | .error e => Q (.error e) w'') (always_step hgo h hfails hdrops) (fun a w'' h => h)
    fun e w'' h => h

/-- A program none of whose operations can fail. -/
theorem always_sure {p : Act F B α} {w w' : World F B} {r : Except Exn α}
    {Q : Except Exn α → World F B → Prop} (hops : p.AllOps fun o => fallible o = false)
    (hrun : p.run (answer t) w = some (r, w')) (h : Q r w') : Always (MayFail t) p w Q := by
  induction p generalizing w with
  | ret outcome =>
      obtain ⟨rfl, rfl⟩ := Prod.mk.inj (Option.some.inj hrun)
      exact h
  | op o next ih =>
      rw [run] at hrun
      cases hop : answer t o w with
      | none => simp [hop] at hrun
      | some x =>
          rw [hop] at hrun
          refine ⟨⟨x.1, x.2, .goes hop⟩, fun r' w'' hmay => ?_⟩
          cases hmay with
          | goes h' =>
              obtain rfl := Option.some.inj (hop.symm.trans h')
              exact ih _ (hops.2 _) hrun
          | fails step => simp [hops.1] at step
          | drops step => simp [hops.1] at step

/-! ## The row -/

omit [PyFloat F] in
/-- What the insertion of a row leaves of the world: the row staged, or nothing
and an exception. -/
theorem insert_cases {db : LocalDb F} (me : SessionId) (model : SimulationModel)
    (hrow : db.row = none) :
    ∃ r db', db.insert me model = some (r, db') ∧ db'.row = none ∧
      ((∃ text, r = .error (.other text)) ∨ r = .ok model.id ∧
        ∃ trees, db'.tx = some
          { owner := me, row := some model, trees := trees, claimed := false }) := by
  unfold LocalDb.insert
  split_ifs
  · exact ⟨_, _, rfl, hrow, Or.inl ⟨_, rfl⟩⟩
  · exact ⟨_, _, rfl, hrow, Or.inr ⟨rfl, _, rfl⟩⟩
  · exact ⟨_, _, rfl, hrow, Or.inl ⟨_, rfl⟩⟩

/-- The insertion is committed, or without effect and raises. -/
theorem always_createSimulation {w : World F B} {model : SimulationModel}
    (hrow : w.db.row = none) :
    Always (MayFail t) (createSimulation model) w fun r w' =>
      ∃ db, w' = { w with db := db } ∧
        ((∃ e, e.isException = true ∧ r = .error e) ∧ db.row = none ∨
          r = .ok model.id ∧ db.row = some model ∧ db.tx = none) := by
  unfold createSimulation
  obtain ⟨r₀, db, hinsert, hdbrow, hdb⟩ :=
    insert_cases ⟨t, .request⟩ model hrow
  have hgo : answer t (.insertRow .request model) w = some (r₀, { w with db := db }) := by
    simp only [answer, hinsert, Option.map_some]
  refine Always.bind (Q := fun r w' => ((∃ e, e.isException = true ∧ r = .error e) ∧
    ∃ db, w' = { w with db := db } ∧ db.row = none) ∨
      r = .ok model.id ∧ w' = { w with db := db } ∧ ∃ trees, db.tx = some
        { owner := ⟨t, .request⟩, row := some model, trees := trees, claimed := false })
    (always_step hgo ?_ (fun _ e _ he => Or.inl ⟨⟨e, he, rfl⟩, w.db, rfl, hrow⟩)
      fun _ a ha => by cases ha) (fun a w' h => ?_) fun e w' h => ?_
  · rcases hdb with ⟨text, rfl⟩ | ⟨rfl, trees, htx⟩
    · exact Or.inl ⟨⟨_, rfl, rfl⟩, db, rfl, hdbrow⟩
    · exact Or.inr ⟨rfl, rfl, trees, htx⟩
  · rcases h with ⟨⟨e, -, h⟩, -⟩ | ⟨h, rfl, trees, htx⟩
    · cases h
    · -- the commit
      obtain rfl := Except.ok.inj h
      have hown : db.own ⟨t, .request⟩ = some _ := (LocalDb.own_eq_some _ _).mpr ⟨htx, rfl⟩
      refine Always.bind (Q := fun r w' => (∃ e, e.isException = true ∧ r = .error e) ∧
        w' = { w with db := db } ∨ r = .ok () ∧ w' = { w with db := db.commit ⟨t, .request⟩ })
        (always_step rfl (Or.inr ⟨rfl, rfl⟩) (fun _ e _ he => Or.inl ⟨⟨e, he, rfl⟩, rfl⟩)
          fun _ a ha => by cases ha) (fun u w' h => ?_) fun e w' h => ?_
      · rcases h with ⟨⟨e, -, h⟩, -⟩ | ⟨-, rfl⟩
        · cases h
        · refine ⟨_, rfl, Or.inr ⟨rfl, ?_, ?_⟩⟩
          · rw [LocalDb.commit_of_own hown]
          · rw [LocalDb.commit_of_own hown]
      · rcases h with ⟨⟨e', he', h⟩, rfl⟩ | ⟨h, -⟩
        · obtain rfl := Except.error.inj h
          exact ⟨_, rfl, Or.inl ⟨⟨_, he', rfl⟩, hdbrow⟩⟩
        · cases h
  · rcases h with ⟨⟨e', he', h⟩, db', rfl, hdb'⟩ | ⟨h, -⟩
    · obtain rfl := Except.error.inj h
      exact ⟨db', rfl, Or.inl ⟨⟨_, he', rfl⟩, hdb'⟩⟩
    · cases h

/-- A mark on a PENDING row. -/
theorem run_markFailedToQueue {w : World F B} {row : SimulationModel} (simulationId : Nat)
    (reason : String) (hrow : w.db.row = some row) (hpending : row.status = .pending)
    (htx : w.db.tx = none) :
    ∃ db audit row', (markFailedToQueue simulationId reason : Act F B Unit).run (answer t) w =
      some (.ok (), { w with db := db, audit := audit }) ∧
        db.row = some row' ∧ row'.status = .failed := by
  have hvisible : w.db.visible ⟨t, .own⟩ = some row := (LocalDb.visible_of_free htx).trans hrow
  let values := changedBy row .failed (Text.clip 2000 ("failed_to_queue: " ++ reason))
  have hstatus : (row.set values).status = .failed := by
    simp [values, changedBy, hpending]
  have hupdate : w.db.update ⟨t, .own⟩ values =
      some (.ok (), w.db.stage ⟨t, .own⟩ (some (row.set values)) false) := by
    simp [LocalDb.update, values, changedBy, RowValues.isEmpty, hpending, LocalDb.onRow,
      LocalDb.locked, htx, hvisible]
  have hown : (w.db.stage ⟨t, .own⟩ (some (row.set values)) false).own ⟨t, .own⟩ = some _ :=
    (LocalDb.own_eq_some _ _).mpr ⟨rfl, rfl⟩
  let entry : AuditEntry :=
    { payload := .queueFailed (Text.clip 500 reason)
      entityId := simulationId
      idCommunity := row.idCommunity }
  refine ⟨((w.db.stage ⟨t, .own⟩ (some (row.set values)) false).commit ⟨t, .own⟩).rollback
    ⟨t, .own⟩, ((w.audit.stage ⟨t, .own⟩ entry).commit ⟨t, .own⟩).rollback ⟨t, .own⟩,
    row.set values, ?_, ?_, hstatus⟩
  · simp only [markFailedToQueue, withLocalSession, withCrmSession, ensuring, perform, bind_def,
      andThen, run, answer, hvisible, hupdate, values, entry, pure_def, Option.map_some]
  · rw [LocalDb.commit_of_own hown, LocalDb.rollback_of_not_own (LocalDb.own_of_free rfl)]

omit [PyFloat F] in
theorem allOps_markFailedToQueue {simulationId : Nat} {reason : String} :
    (markFailedToQueue simulationId reason : Act F B Unit).AllOps fun o => fallible o = false := by
  unfold markFailedToQueue withLocalSession withCrmSession
  refine .bind (.ensuring (.bind (.perform rfl) fun row => ?_) (.perform rfl)) fun marked => ?_
  · cases row with
    | none => trivial
    | some row => exact .bind (.perform rfl) fun _ => .bind (.perform rfl) fun _ => trivial
  · cases marked with
    | none => trivial
    | some idCommunity =>
        exact .ensuring (.bind (.perform rfl) fun _ => .perform rfl) (.perform rfl)

/-- The publish goes through, or the row is FAILED and the cleanup done. -/
theorem always_publishOrMark {w : World F B} {row : SimulationModel} {simulationId : Nat}
    {cleanup : Act F B Unit} {clean : ObjectStore F B → ObjectStore F B}
    (hrow : w.db.row = some row) (hpending : row.status = .pending) (htx : w.db.tx = none)
    (hcleanup : ∀ w₁ : World F B, Always (MayFail t) cleanup w₁ fun r w₂ =>
      r = .ok () ∧ w₂ = { w₁ with storage := clean w₁.storage }) :
    Always (MayFail t) (publishOrMark simulationId cleanup) w fun r w' =>
      (r = .ok () ∧ w' = { w with
        nats := w.nats.publish simulationSubject (simulationRequested simulationId) }) ∨
        (∃ e, r = .error e) ∧ w'.nats = w.nats ∧ w'.storage = clean w.storage ∧
          ∃ row', w'.db.row = some row' ∧ row'.status = .failed := by
  unfold publishOrMark onException
  refine Always.tryCatch (Q := fun r w' => (∃ e, e.isException = true ∧ r = .error e) ∧ w' = w ∨
    r = .ok () ∧ w' = { w with
      nats := w.nats.publish simulationSubject (simulationRequested simulationId) })
    (always_step rfl (Or.inr ⟨rfl, rfl⟩) (fun _ e _ he => Or.inl ⟨⟨e, he, rfl⟩, rfl⟩)
      fun _ a ha => by cases ha) (fun u w' h => ?_) fun e w' h => ?_
  · rcases h with ⟨⟨e, -, h⟩, -⟩ | ⟨-, rfl⟩
    · cases h
    · exact Or.inl ⟨rfl, rfl⟩
  · rcases h with ⟨⟨e', he', h⟩, hw⟩ | ⟨h, -⟩
    · obtain rfl := Except.error.inj h
      rw [if_pos he', hw]
      -- the row is marked, the upload deleted, the request refused
      obtain ⟨db, audit, row', hrun, hrow', hstatus⟩ := run_markFailedToQueue (t := t)
        simulationId e.text hrow hpending htx
      refine Always.bind (Q := fun r w' => r = .ok () ∧ w' = { w with db := db, audit := audit })
        (always_sure ?_ hrun ⟨rfl, rfl⟩) (fun u w' h => ?_) fun e w' h => by cases h.1
      · exact allOps_markFailedToQueue
      · obtain ⟨-, rfl⟩ := h
        refine Always.bind (hcleanup _) (fun u w' h => ?_) fun e w' h => by cases h.1
        obtain ⟨-, rfl⟩ := h
        exact Or.inr ⟨⟨_, rfl⟩, rfl, rfl, row', hrow', hstatus⟩
    · cases h

/-! ## What a request leaves -/

inductive Outcome where
  | nothing
  | pending
  | failed
  deriving DecidableEq, Repr

/-- What a start that uploads `upload` leaves of the world `w`, with its answer. -/
inductive Started (w : World F B) (upload : Option (SourceKey × B))
    (r : Except Exn SimulateResponse) (w' : World F B) : Outcome → Prop where
  | nothing (refused : ∃ e, r = .error e) (row : w'.db.row = none)
      (storage : w'.storage = w.storage) (events : w'.nats = w.nats) :
      Started w upload r w' .nothing
  | pending {row : SimulationModel} (committed : w'.db.row = some row)
      (status : row.status = .pending) (source : row.fileStorageKey = upload.map Prod.fst)
      (answered : r = .ok { id := row.id, status := .pending })
      (storage : w'.storage = upload.elim w.storage fun u => w.storage.putSource u.1 u.2)
      (event : w'.nats = w.nats.publish simulationSubject (simulationRequested row.id)) :
      Started w upload r w' .pending
  | failed {row : SimulationModel} (committed : w'.db.row = some row)
      (status : row.status = .failed) (refused : ∃ e, r = .error e)
      (storage : w'.storage = w.storage) (events : w'.nats = w.nats) :
      Started w upload r w' .failed

variable {lib : Libraries F B L} {w : World F B} {newId community : Nat}

omit [PyFloat F] in
theorem Started.unique {upload : Option (SourceKey × B)} {r : Except Exn SimulateResponse}
    {w' : World F B} {o o' : Outcome} (h : Started w upload r w' o)
    (h' : Started w upload r w' o') : o' = o := by
  cases h with
  | nothing refused row =>
      cases h' with
      | nothing => rfl
      | pending committed | failed committed => rw [row] at committed; cases committed
  | pending committed status =>
      cases h' with
      | nothing refused row => rw [row] at committed; cases committed
      | pending => rfl
      | failed committed' status' =>
          obtain rfl := Option.some.inj (committed.symm.trans committed')
          rw [status] at status'
          cases status'
  | failed committed status =>
      cases h' with
      | nothing refused row => rw [row] at committed; cases committed
      | pending committed' status' =>
          obtain rfl := Option.some.inj (committed.symm.trans committed')
          rw [status] at status'
          cases status'
      | failed => rfl

omit [PyFloat F] in
theorem Started.frame {upload : Option (SourceKey × B)} {r : Except Exn SimulateResponse}
    {w' w'' : World F B} {o : Outcome} (h : Started w upload r w' o)
    (hrow : w''.db.row = w'.db.row) (hstorage : w''.storage = w'.storage)
    (hnats : w''.nats = w'.nats) : Started w upload r w'' o := by
  cases h with
  | nothing refused row storage events =>
      exact .nothing refused (hrow.trans row) (hstorage.trans storage) (hnats.trans events)
  | pending committed status source answered storage event =>
      exact .pending (hrow.trans committed) status source answered (hstorage.trans storage)
        (hnats.trans event)
  | failed committed status refused storage events =>
      exact .failed (hrow.trans committed) status refused (hstorage.trans storage)
        (hnats.trans events)

/-- The publish of a committed row, and what follows its failure. -/
theorem always_published {model : SimulationModel} (upload : Option (SourceKey × B))
    (w' : World F B) (cleanup : Act F B Unit) (clean : ObjectStore F B → ObjectStore F B)
    (hrow : w'.db.row = some model) (hpending : model.status = .pending) (htx : w'.db.tx = none)
    (hsource : model.fileStorageKey = upload.map Prod.fst)
    (hstorage : w'.storage = upload.elim w.storage fun u => w.storage.putSource u.1 u.2)
    (hnats : w'.nats = w.nats)
    (hcleanup : ∀ w₁ : World F B, Always (MayFail t) cleanup w₁ fun r w₂ =>
      r = .ok () ∧ w₂ = { w₁ with storage := clean w₁.storage })
    (hclean : clean w'.storage = w.storage) :
    Always (MayFail t) (do
      publishOrMark model.id cleanup
      pure { id := model.id, status := .pending } : Act F B SimulateResponse) w' fun r w'' =>
        ∃ o, Started w upload r w'' o := by
  refine Always.bind (always_publishOrMark hrow hpending htx hcleanup) (fun u w'' h => ?_)
    fun e w'' h => ?_
  · rcases h with ⟨-, rfl⟩ | ⟨⟨e, h⟩, -⟩
    · exact ⟨_, .pending hrow hpending hsource rfl hstorage (by rw [hnats])⟩
    · cases h
  · rcases h with ⟨h, -⟩ | ⟨-, hnats', hstorage', row', hrow', hstatus⟩
    · cases h
    · exact ⟨_, .failed hrow' hstatus ⟨e, rfl⟩ (hstorage'.trans hclean) (hnats'.trans hnats)⟩

omit [PyFloat F] in
theorem delete_putSource {store : ObjectStore F B} {key : SourceKey} {content : B}
    (hnew : store.sources key = none) :
    (store.putSource key content).delete (some (.source key)) = store := by
  have hsources : Function.update (Function.update store.sources key (some content)) key none =
      store.sources := by
    rw [Function.update_idem]
    exact Function.update_eq_iff.mpr ⟨hnew.symm, fun _ _ => rfl⟩
  cases store with
  | mk sources results => exact congrArg (ObjectStore.mk · results) hsources

/-- The upload is read, or refused. -/
theorem always_readWithinCap {file : UploadFile B} :
    Always (MayFail t) (readWithinCap lib file) w fun r w' =>
      w' = w ∧ ((∃ e, r = .error e) ∨ r = .ok file.content) := by
  unfold readWithinCap
  refine always_step_bind rfl ?_ (fun _ e _ _ => ⟨rfl, Or.inl ⟨e, rfl⟩⟩) fun _ a ha => by cases ha
  split_ifs
  · exact ⟨rfl, Or.inl ⟨_, rfl⟩⟩
  · exact ⟨rfl, Or.inl ⟨_, rfl⟩⟩
  · exact ⟨rfl, Or.inr rfl⟩

/-- The upload is stored, or the request refused. -/
theorem always_uploadSource {storageKey : SourceKey} {content : B} :
    Always (MayFail t) (onException (await (.upload storageKey content)) fun _ =>
      reject .storageUploadFailed 502) w fun r w' =>
        (∃ e, r = .error e) ∧ w' = w ∨
          r = .ok () ∧ w' = { w with storage := w.storage.putSource storageKey content } := by
  unfold onException
  refine Always.tryCatch (Q := fun r w' => (∃ e, e.isException = true ∧ r = .error e) ∧ w' = w ∨
    r = .ok () ∧ w' = { w with storage := w.storage.putSource storageKey content })
    (always_step rfl (Or.inr ⟨rfl, rfl⟩) (fun _ e _ he => Or.inl ⟨⟨e, he, rfl⟩, rfl⟩)
      fun _ a ha => by cases ha) (fun u w' h => ?_) fun e w' h => ?_
  · rcases h with ⟨⟨e, -, h⟩, -⟩ | h
    · cases h
    · exact Or.inr h
  · rcases h with ⟨⟨e', he', h⟩, hw⟩ | ⟨h, -⟩
    · obtain rfl := Except.error.inj h
      rw [if_pos he']
      exact Or.inl ⟨⟨_, rfl⟩, hw⟩
    · cases h

/-- The row is committed over its upload, or both are gone. -/
theorem always_createOrDelete {storageKey : SourceKey} {content : B} {model : SimulationModel}
    (hrow : w.db.row = none) (hnew : w.storage.sources storageKey = none) :
    Always (MayFail t) (onException (createSimulation model) fun e => do
        await (.delete (some (.source storageKey)))
        raise e)
      { w with storage := w.storage.putSource storageKey content } fun r w' =>
        (∃ e, r = .error e) ∧ (∃ db, w' = { w with db := db } ∧ db.row = none) ∨
          r = .ok model.id ∧ ∃ db, w' = { w with
            db := db
            storage := w.storage.putSource storageKey content } ∧
              db.row = some model ∧ db.tx = none := by
  unfold onException
  refine Always.tryCatch (always_createSimulation hrow) (fun id w' h => ?_) fun e w' h => ?_
  · obtain ⟨db, hw, ⟨⟨e, -, h⟩, -⟩ | ⟨h, hdb⟩⟩ := h
    · cases h
    · exact Or.inr ⟨h, db, hw, hdb⟩
  · obtain ⟨db, hw, ⟨⟨e', he', h⟩, hdb⟩ | ⟨h, -⟩⟩ := h
    · obtain rfl := Except.error.inj h
      rw [if_pos he', hw]
      refine always_step_bind rfl ?_ (fun h => by cases h) fun h => by cases h
      refine Or.inl ⟨⟨_, rfl⟩, db, ?_, hdb⟩
      simp only [delete_putSource hnew]
    · cases h

theorem always_startSimulation {uuid : Uuid} {req : SimulateRequest} {file : UploadFile B}
    (hrow : w.db.row = none)
    (hnew : w.storage.sources ⟨community, uuid, uploadName file⟩ = none) :
    Always (MayFail t) (startSimulation lib newId uuid req file community) w fun r w' =>
      ∃ o, Started w (some (⟨community, uuid, uploadName file⟩, file.content)) r w' o := by
  have hrefused : ∀ {r : Except Exn SimulateResponse}, (∃ e, r = .error e) →
      ∃ o, Started w (some (⟨community, uuid, uploadName file⟩, file.content)) r w o :=
    fun h => ⟨_, .nothing h hrow rfl rfl⟩
  unfold startSimulation
  refine always_step_bind rfl ?_ (fun _ e _ _ => hrefused ⟨e, rfl⟩) fun _ a ha => by cases ha
  cases w.crm.allocationKeys req.idKey community with
  | none => exact hrefused ⟨_, rfl⟩
  | some key =>
      refine Always.bind always_readWithinCap (fun content w' h => ?_) fun e w' h => ?_
      · obtain ⟨hw, ⟨e, h⟩ | h⟩ := h
        · cases h
        · obtain rfl := Except.ok.inj h
          rw [hw]
          split_ifs
          · exact hrefused ⟨_, rfl⟩
          · refine Always.bind always_uploadSource (fun u w' h => ?_) fun e w' h => ?_
            · rcases h with ⟨⟨e, h⟩, -⟩ | ⟨-, hw⟩
              · cases h
              · rw [hw]
                refine Always.bind (always_createOrDelete hrow hnew) (fun id w' h => ?_)
                  fun e w' h => ?_
                · rcases h with ⟨⟨e, h⟩, -⟩ | ⟨h, db, hw, hdbrow, hdbtx⟩
                  · cases h
                  · obtain rfl := Except.ok.inj h
                    rw [hw]
                    -- the audit entry, dropped or not, then the publish
                    have hpublished := fun audit => always_published (t := t) (w := w)
                      (some (⟨community, uuid, uploadName file⟩, file.content))
                      ({ w with
                        db := db
                        storage := w.storage.putSource ⟨community, uuid, uploadName file⟩
                          file.content
                        audit := audit })
                      (await (.delete (some (.source
                        ⟨community, uuid, uploadName file⟩))))
                      (fun store => store.delete (some (.source
                        ⟨community, uuid, uploadName file⟩)))
                      hdbrow rfl hdbtx rfl rfl rfl
                      (fun w₁ => always_step rfl ⟨rfl, rfl⟩ (fun h => by cases h)
                        fun h => by cases h) (delete_putSource hnew)
                    refine always_step_bind rfl (hpublished _) (fun _ e hraises he => ?_)
                      fun _ _ _ => hpublished _
                    simp [Op.raises, he] at hraises
                · rcases h with ⟨-, db, hw, hdb⟩ | ⟨h, -⟩
                  · rw [hw]
                    exact ⟨_, .nothing ⟨e, rfl⟩ hdb rfl rfl⟩
                  · cases h
            · rcases h with ⟨-, hw⟩ | ⟨h, -⟩
              · rw [hw]
                exact hrefused ⟨e, rfl⟩
              · cases h
      · rw [h.1]
        exact hrefused ⟨e, rfl⟩

/-- The pre-flight changes nothing. -/
theorem always_previewCrmData {idKey idSharingOperation periodStart periodEnd : Nat} :
    Always (MayFail t) (previewCrmData idKey idSharingOperation periodStart periodEnd community) w
      fun _ w' => w' = w := by
  unfold previewCrmData
  split_ifs
  · rfl
  · refine always_step_bind rfl ?_ (fun _ _ _ _ => rfl) fun _ a ha => by cases ha
    cases w.crm.allocationKeys idKey community with
    | none => rfl
    | some key =>
        refine always_step_bind rfl ?_ (fun _ _ _ _ => rfl) fun _ a ha => by cases ha
        split_ifs
        · refine Always.bind (Q := fun _ w' => w' = w) ?_ (fun summary w' h => h) fun e w' h => h
          cases hbounds : sentBounds periodStart periodEnd with
          | error text =>
              exact always_step (by simp only [answer, hbounds]; rfl) rfl (fun _ _ _ _ => rfl)
                fun _ a ha => by cases ha
          | ok bounds =>
              exact always_step (by simp only [answer, hbounds]; rfl) rfl (fun _ _ _ _ => rfl)
                fun _ a ha => by cases ha
        · rfl

theorem always_startSimulationFromCrm {req : SimulateFromCrmRequest} (hrow : w.db.row = none) :
    Always (MayFail t) (startSimulationFromCrm newId req community) w fun r w' =>
      ∃ o, Started w none r w' o := by
  have hrefused : ∀ {r : Except Exn SimulateResponse}, (∃ e, r = .error e) →
      ∃ o, Started w none r w o :=
    fun h => ⟨_, .nothing h hrow rfl rfl⟩
  unfold startSimulationFromCrm
  refine always_step_bind rfl ?_ (fun _ e _ _ => hrefused ⟨e, rfl⟩) fun _ a ha => by cases ha
  cases w.crm.allocationKeys req.idKey community with
  | none => exact hrefused ⟨_, rfl⟩
  | some key =>
      refine Always.bind always_previewCrmData (fun preflight w' hw => ?_) fun e w' hw => ?_
      · rw [hw]
        cases preflight.blockers with
        | cons first rest => exact hrefused ⟨_, rfl⟩
        | nil =>
            refine Always.bind (always_createSimulation hrow) (fun id w' h => ?_) fun e w' h => ?_
            · obtain ⟨db, hw, ⟨⟨e, -, h⟩, -⟩ | ⟨h, hdbrow, hdbtx⟩⟩ := h
              · cases h
              · obtain rfl := Except.ok.inj h
                rw [hw]
                -- the audit entry, dropped or not, then the publish
                have hpublished := fun audit => always_published (t := t) (w := w) none
                  { w with db := db, audit := audit } (pure ()) (fun store => store) hdbrow rfl hdbtx
                  rfl rfl rfl (fun w₁ => ⟨rfl, rfl⟩) rfl
                refine always_step_bind rfl (hpublished _) (fun _ e hraises he => ?_)
                  fun _ _ _ => hpublished _
                simp [Op.raises, he] at hraises
            · obtain ⟨db, hw, ⟨-, hdb⟩ | ⟨h, -⟩⟩ := h
              · rw [hw]
                exact ⟨_, .nothing ⟨e, rfl⟩ hdb rfl rfl⟩
              · cases h
      · rw [hw]
        exact hrefused ⟨e, rfl⟩

/-! ## Every request -/

/-- A request to start a simulation. -/
inductive Start (B : Type) where
  | fromFile (uuid : Uuid) (req : SimulateRequest) (file : UploadFile B)
  | fromCrm (req : SimulateFromCrmRequest)

/-- The object a start stores. -/
def Start.upload (community : Nat) : Start B → Option (SourceKey × B)
  | .fromFile uuid _ file => some (⟨community, uuid, uploadName file⟩, file.content)
  | .fromCrm _ => none

/-- The request, with its sessions. -/
def Start.request (lib : Libraries F B L) (newId community : Nat) :
    Start B → Act F B SimulateResponse
  | .fromFile uuid req file => withRequestSessions (startSimulation lib newId uuid req file community)
  | .fromCrm req => withRequestSessions (startSimulationFromCrm newId req community)

/-- Closing its sessions changes nothing of what a request leaves. -/
theorem always_withRequestSessions {upload : Option (SourceKey × B)}
    {body : Act F B SimulateResponse}
    (hbody : Always (MayFail t) body w fun r w' => ∃ o, Started w upload r w' o) :
    Always (MayFail t) (withRequestSessions body) w fun r w' =>
      ∃! o, Started w upload r w' o := by
  unfold withRequestSessions withLocalSession withCrmSession
  have hclosed : Always (MayFail t) ((body.ensuring (await (.closeCrm .request))).ensuring
      (await (.closeLocal .request))) w fun r w' => ∃ o, Started w upload r w' o := by
    refine Always.ensuring (Q := fun r w' => ∃ o, Started w upload r w' o)
      (hbody.ensuring fun r w' h => ?_) fun r w' h => ?_
    · obtain ⟨o, h⟩ := h
      exact always_step rfl ⟨o, h.frame rfl rfl rfl⟩ (fun h => by cases h) fun h => by cases h
    · obtain ⟨o, h⟩ := h
      exact always_step rfl ⟨o, h.frame LocalDb.rollback_row rfl rfl⟩
        (fun h => by cases h) fun h => by cases h
  exact hclosed.mono fun r w' ⟨o, h⟩ => ⟨o, h, fun o' h' => h.unique h'⟩

/-- Whatever steps of a start fail, the request leaves exactly one of: nothing;
a PENDING row with its object and its event; a FAILED row. -/
theorem start_atomic {start : Start B} (hrow : w.db.row = none)
    (hnew : ∀ u, start.upload community = some u → w.storage.sources u.1 = none) :
    Always (MayFail t) (start.request lib newId community) w fun r w' =>
      ∃! o, Started w (start.upload community) r w' o := by
  cases start with
  | fromFile uuid req file =>
      exact always_withRequestSessions (always_startSimulation hrow (hnew _ rfl))
  | fromCrm req => exact always_withRequestSessions (always_startSimulationFromCrm hrow)

end Start

/-! ## A request -/

/-- The publish of a start times out. -/
def publishTimesOut (o : Op ℚ Unit) (w : World ℚ Unit) :
    Option (Except Exn o.Resp × World ℚ Unit) :=
  match o with
  | .publish .. => some (.error (.other "nats: timeout"), w)
  | o => answer 0 o w

theorem may_of_publishTimesOut {o : Op ℚ Unit} {w w' : World ℚ Unit} {r : Except Exn o.Resp}
    (h : publishTimesOut o w = some (r, w')) : MayFail 0 o w r w' := by
  cases o with
  | publish =>
      obtain ⟨rfl, rfl⟩ := Prod.mk.inj (Option.some.inj h)
      exact .fails rfl rfl rfl
  | _ => exact .goes h

def smallStart : Start Unit :=
  .fromFile smallUuid { name := "run", idKey := 7, injectionName := "injection" }
    { content := (), filename := some "data.csv" }

/-- No object is stored yet. -/
def emptyWorld : World ℚ Unit :=
  { smallWorld none 0 "d" with storage := { sources := fun _ => none, results := fun _ => none } }

theorem of_publishTimesOut {α : Type} {p : Act ℚ Unit α} {Q : Except Exn α → World ℚ Unit → Prop}
    {w w' : World ℚ Unit} {r : Except Exn α} (h : Always (MayFail 0) p w Q)
    (hrun : p.run publishTimesOut w = some (r, w')) : Q r w' := by
  refine Always.of_run ?_ h hrun
  intro o w r w' hstep
  exact may_of_publishTimesOut hstep

/-- A start whose publish times out leaves a FAILED row, and no object. -/
theorem start_atomic_publishTimesOut :
    ∃ r w', (smallStart.request smallLib 1 3).run publishTimesOut emptyWorld = some (r, w') ∧
      Started emptyWorld (smallStart.upload 3) r w' .failed := by
  have hrow : ((smallStart.request smallLib 1 3).run publishTimesOut emptyWorld).map
      (fun x => x.2.db.row.map (·.status)) = some (some .failed) := by
    decide +kernel
  obtain ⟨⟨r, w'⟩, hrun, hstatus⟩ := Option.map_eq_some_iff.mp hrow
  refine ⟨r, w', hrun, ?_⟩
  have hstart : Always (MayFail 0) (smallStart.request smallLib 1 3) emptyWorld fun r w' =>
      ∃! o, Started emptyWorld (smallStart.upload 3) r w' o := start_atomic rfl fun _ _ => rfl
  obtain ⟨o, h, -⟩ := of_publishTimesOut hstart hrun
  -- the row says which of the three it is
  cases o with
  | failed => exact h
  | nothing =>
      cases h with
      | nothing refused row => simp [row] at hstatus
  | pending =>
      cases h with
      | pending committed status => simp [committed, status] at hstatus

end SimulationKey.Theorems.AtomicStart
