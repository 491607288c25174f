import SimulationKey.Worker.Dispatcher

/-!
# A delivery handled alone

The handler with no other task at work, and at most one transient fault: an
operation of the outside that raises, without effect or after it, everything
working again right afterwards.

* **stages** — which faults are transient depends on what the handler is at,
  which the operations it has performed determine (`Stage.after`).
* **one rule per step** — each lemma says how a step of `worker/dispatcher.py`
  ends when nothing fails and when the fault hits it.
-/

namespace SimulationKey

open Kit Kit.Prog

variable {F B L α β : Type} {t : Nat}

/-! ## Stages and faults -/

/-- What a delivery is at: reading the row, reading the key and the data,
recording a failure, persisting a result, or done with it. -/
inductive Stage where
  | row
  | inputs
  | recording
  | persist
  | ended
  deriving DecidableEq, Repr

/-- The stage after an operation. A failure's recording starts with the read of
the row, a result's persisting with the end of the solve. -/
def Stage.after (stage : Stage) (o : Op F B) (r : Except Exn o.Resp) : Stage :=
  match stage, o with
  | row, .closeLocal _ => inputs
  | inputs, .getRow _ => recording
  | inputs, .runSimulation .. => if r.isOk then persist else inputs
  | persist, .remove _ => ended
  | stage, _ => stage

/-- The exceptions that are transient faults of an operation at a stage: a database
error, or a retryable one of the object store, mapped by `_read_errors` or not. -/
def Stage.transient : Stage → Op F B → Exn → Bool
  | row, .getRow _, .other _ | row, .closeLocal _, .other _ => true
  | inputs, .getAllocationKey .., .other _ | inputs, .summarize .., .other _
  | inputs, .fetchRows .., .other _ | inputs, .closeCrm _, .other _ => true
  | inputs, .download _, .transientStorage _ | inputs, .download _, .other _ => true
  | persist, .getRow _, .other _ | persist, .claim .., .other _
  | persist, .insertTree .., .other _ | persist, .uploadFile .., .other _
  | persist, .commitLocal _, .other _ | persist, .closeLocal _, .other _
  | persist, .commitCrm _, .other _ | persist, .closeCrm _, .other _ => true
  | _, _, _ => false

@[simp] theorem Stage.transient_recording (o : Op F B) (e : Exn) :
    Stage.recording.transient o e = false := by
  cases o <;> rfl

@[simp] theorem Stage.after_recording (o : Op F B) (r : Except Exn o.Resp) :
    Stage.recording.after o r = .recording := by
  cases o <;> rfl

/-- Where a fault is met: in the read of the row, in the download as an error that
`_read_errors` leaves as it is, or where it is wrapped as a transient one. -/
inductive Site where
  | rowRead
  | unmapped
  | wrapped
  deriving DecidableEq, Repr

def Stage.site : Stage → Op F B → Exn → Site
  | row, _, _ => .rowRead
  | inputs, .download _, .other _ => .unmapped
  | _, _, _ => .wrapped

/-- The fault of a delivery: none, one to come, or the site it has hit. -/
inductive Fault where
  | never
  | coming
  | hit (site : Site)
  deriving DecidableEq, Repr

structure Lone (F B : Type) where
  stage : Stage
  fault : Fault
  world : World F B

/-! ## The row, with no transaction open -/

/-- A committed row without an outcome. -/
structure Waiting (row : SimulationModel) (w : World F B) : Prop where
  committed : w.db.row = some row
  pending : row.status = .pending
  tx : w.db.tx = none

/-- The committed row, over the same uploads and replies. -/
structure Left (row : SimulationModel) (w w' : World F B) : Prop where
  committed : w'.db.row = some row
  tx : w'.db.tx = none
  sources : w'.storage.sources = w.storage.sources
  nats : w'.nats = w.nats

theorem LocalDb.own_of_free {db : LocalDb F} {me : SessionId} (htx : db.tx = none) :
    db.own me = none := by
  simp [own, htx]

theorem LocalDb.visible_of_free {db : LocalDb F} {me : SessionId} (htx : db.tx = none) :
    db.visible me = db.row := by
  simp [visible, own, htx]

/-- The transaction of a claim. -/
def claimTx (t : Nat) (row : SimulationModel) (trees : List (SimulationKeyResultModel F)) : Tx F :=
  { owner := ⟨t, .own⟩, row := some row, trees := trees, claimed := true }

theorem LocalDb.claim_of_free {db : LocalDb F} {row : SimulationModel} (values : RowValues)
    (htx : db.tx = none) (hrow : db.row = some row) (hpending : row.status = .pending) :
    db.claim ⟨t, .own⟩ values =
      some (.ok 1, { db with tx := some (claimTx t (row.set values) []) }) := by
  simp [claim, locked, htx, visible_of_free htx, hrow, hpending, stage, own_of_free htx, claimTx]

/-- What the commit of a claim leaves. -/
theorem LocalDb.commit_claimTx {db : LocalDb F} {row : SimulationModel}
    {trees : List (SimulationKeyResultModel F)} (htx : db.tx = some (claimTx t row trees)) :
    (db.commit ⟨t, .own⟩).row = some row ∧ (db.commit ⟨t, .own⟩).tx = none := by
  have hown : db.own ⟨t, .own⟩ = some (claimTx t row trees) :=
    (LocalDb.own_eq_some _ _).mpr ⟨htx, rfl⟩
  rw [LocalDb.commit_of_own hown]
  exact ⟨rfl, rfl⟩

/-- The row without an outcome or with the given one, no other session at work. -/
structure Unsettled (t : Nat) (row row' : SimulationModel) (w w' : World F B) : Prop where
  committed : w'.db.row = some row ∨ w'.db.row = some row'
  tx : ∀ tx, w'.db.tx = some tx → tx.owner = ⟨t, .own⟩
  sources : w'.storage.sources = w.storage.sources
  nats : w'.nats = w.nats

/-- The claim has staged its version of the row. -/
structure Claimed (t : Nat) (row row' : SimulationModel) (w w' : World F B) : Prop where
  committed : w'.db.row = some row
  tx : ∃ trees, w'.db.tx = some (claimTx t row' trees)
  sources : w'.storage.sources = w.storage.sources
  nats : w'.nats = w.nats

section Claimed

variable {row row' : SimulationModel} {w w' : World F B}

theorem Claimed.unsettled (h : Claimed t row row' w w') : Unsettled t row row' w w' := by
  refine ⟨Or.inl h.committed, fun tx htx => ?_, h.sources, h.nats⟩
  obtain ⟨trees, htx'⟩ := h.tx
  obtain rfl := Option.some.inj (htx'.symm.trans htx)
  rfl

theorem Claimed.commit (h : Claimed t row row' w w') :
    Left row' w { w' with db := w'.db.commit ⟨t, .own⟩ } := by
  obtain ⟨trees, htx⟩ := h.tx
  obtain ⟨hrow, htx⟩ := LocalDb.commit_claimTx htx
  exact ⟨hrow, htx, h.sources, h.nats⟩

theorem Claimed.rollback (h : Claimed t row row' w w') :
    Left row w { w' with db := w'.db.rollback ⟨t, .own⟩ } := by
  obtain ⟨trees, htx⟩ := h.tx
  have hown : w'.db.own ⟨t, .own⟩ = some (claimTx t row' trees) :=
    (LocalDb.own_eq_some _ _).mpr ⟨htx, rfl⟩
  exact ⟨by simpa [LocalDb.rollback_of_own hown] using h.committed,
    by simp [LocalDb.rollback_of_own hown], h.sources, h.nats⟩

theorem Left.rollback (h : Left row' w w') (me : SessionId) :
    Left row' w { w' with db := w'.db.rollback me } := by
  rw [LocalDb.rollback_of_not_own (LocalDb.own_of_free h.tx)]
  exact h

theorem Left.settled (h : Left row' w w') : Unsettled t row row' w w' :=
  ⟨Or.inr h.committed, by simp [h.tx], h.sources, h.nats⟩

theorem Left.unsettled (h : Left row w w') : Unsettled t row row' w w' :=
  ⟨Or.inl h.committed, by simp [h.tx], h.sources, h.nats⟩

theorem Unsettled.rollback (h : Unsettled t row row' w w') (s : SessionKind) :
    Unsettled t row row' w { w' with db := w'.db.rollback ⟨t, s⟩ } := by
  cases hown : w'.db.own ⟨t, s⟩ with
  | none =>
      refine ⟨?_, ?_, h.sources, h.nats⟩
      · simpa [LocalDb.rollback_of_not_own hown] using h.committed
      · simpa [LocalDb.rollback_of_not_own hown] using h.tx
  | some tx =>
      refine ⟨?_, ?_, h.sources, h.nats⟩
      · simpa [LocalDb.rollback_of_own hown] using h.committed
      · simp [LocalDb.rollback_of_own hown]

end Claimed

section Alone

variable [PyFloat F] {simulationId : Nat}

/-- An operation goes through, or the fault hits it. -/
inductive May (t : Nat) (o : Op F B) (s : Lone F B) : Except Exn o.Resp → Lone F B → Prop where
  | goes {r : Except Exn o.Resp} {w : World F B} (h : answer t o s.world = some (r, w)) :
      May t o s r { stage := s.stage.after o r, fault := s.fault, world := w }
  | faults {e : Exn} {choice : Choice} {w : World F B} (coming : s.fault = .coming)
      (transient : s.stage.transient o e = true) (raises : choice = .fail e ∨ choice = .lost e)
      (h : exec choice t o s.world = some (.error e, w)) :
      May t o s (.error e)
        { stage := s.stage.after o (.error e), fault := .hit (s.stage.site o e), world := w }

/-- Where no fault is to come, the delivery runs as its operations answer. -/
theorem run_of_always {p : Act F B α} {s : Lone F B} {Q : Except Exn α → Lone F B → Prop}
    (h : Always (May t) p s Q) (hnever : s.fault = .never) :
    ∃ r s', p.run (answer t) s.world = some (r, s'.world) ∧ s'.fault = .never ∧ Q r s' := by
  refine h.exists_run Lone.world (fun s => s.fault = .never)
    (fun o s r s' hinv hmay => ?_) hnever
  cases hmay with
  | goes h => exact ⟨hinv, h⟩
  | faults coming => rw [hinv] at coming; cases coming

/-! ## One operation -/

/-- A fault leaves the world as it was or as the operation does. -/
theorem fault_world {choice : Choice} {e : Exn} {o : Op F B} {w w₁ w' : World F B}
    {r : Except Exn o.Resp} (hraises : choice = .fail e ∨ choice = .lost e)
    (h : exec choice t o w = some (.error e, w')) (hgo : answer t o w = some (r, w₁)) :
    w' = w₁ ∨ w' = w ∧ o.closes = false := by
  rcases hraises with rfl | rfl
  · simp only [exec] at h
    split_ifs at h with hfail
    · obtain ⟨-, rfl⟩ := Prod.mk.inj (Option.some.inj h)
      simp only [Bool.and_eq_true, Bool.not_eq_eq_eq_not, Bool.not_true] at hfail
      exact Or.inr ⟨rfl, hfail.2⟩
  · simp only [exec, hgo, Option.map_some] at h
    split_ifs at h
    obtain ⟨-, rfl⟩ := Prod.mk.inj (Option.some.inj h)
    exact Or.inl rfl

/-- An operation that answers, and may be hit. -/
theorem always_await {o : Op F B} {s : Lone F B} {r : Except Exn o.Resp} {w : World F B}
    {Q : Except Exn o.Resp → Lone F B → Prop} (hgo : answer t o s.world = some (r, w))
    (h : Q r { stage := s.stage.after o r, fault := s.fault, world := w })
    (hhit : ∀ e w', s.fault = .coming → s.stage.transient o e = true →
      (w' = w ∨ w' = s.world ∧ o.closes = false) →
        Q (.error e)
          { stage := s.stage.after o (.error e), fault := .hit (s.stage.site o e), world := w' }) :
    Always (May t) (await o) s Q := by
  refine .perform ⟨r, _, .goes hgo⟩ fun r' s' hmay => ?_
  cases hmay with
  | goes h' =>
      obtain ⟨rfl, rfl⟩ := Prod.mk.inj (Option.some.inj (hgo.symm.trans h'))
      exact h
  | faults coming transient raises h' =>
      exact hhit _ _ coming transient (fault_world raises h' hgo)

/-- An operation that answers, and that no fault can hit. -/
theorem always_calm {o : Op F B} {s : Lone F B} {r : Except Exn o.Resp} {w : World F B}
    {Q : Except Exn o.Resp → Lone F B → Prop}
    (hcalm : s.fault = .coming → ∀ e, s.stage.transient o e = false)
    (hgo : answer t o s.world = some (r, w))
    (h : Q r { stage := s.stage.after o r, fault := s.fault, world := w }) :
    Always (May t) (await o) s Q := by
  refine always_await hgo h fun e w' hcoming htransient => ?_
  rw [hcalm hcoming e] at htransient
  cases htransient

/-- Going on after an operation that may be hit. -/
theorem always_await_bind {o : Op F B} {s : Lone F B} {a : o.Resp} {w : World F B}
    {f : o.Resp → Act F B α} {Q : Except Exn α → Lone F B → Prop}
    (hgo : answer t o s.world = some (.ok a, w))
    (h : Always (May t) (f a) { stage := s.stage.after o (.ok a), fault := s.fault, world := w } Q)
    (hhit : ∀ e w', s.fault = .coming → s.stage.transient o e = true →
      (w' = w ∨ w' = s.world ∧ o.closes = false) →
        Q (.error e)
          { stage := s.stage.after o (.error e), fault := .hit (s.stage.site o e), world := w' }) :
    Always (May t) (await o >>= f) s Q := by
  refine Always.bind (Q := fun r s' => (∃ e, r = .error e ∧ Q (.error e) s') ∨
    r = .ok a ∧ s' = { stage := s.stage.after o (.ok a), fault := s.fault, world := w })
    (always_await hgo (Or.inr ⟨rfl, rfl⟩) fun e w' hcoming htransient hw' =>
      Or.inl ⟨e, rfl, hhit e w' hcoming htransient hw'⟩) (fun a' s' h' => ?_) fun e s' h' => ?_
  · rcases h' with ⟨e, he, -⟩ | ⟨ha, rfl⟩
    · cases he
    · obtain rfl := Except.ok.inj ha
      exact h
  · rcases h' with ⟨e', he, hQ⟩ | ⟨he, -⟩
    · obtain rfl := Except.error.inj he
      exact hQ
    · cases he

theorem always_calm_bind {o : Op F B} {s : Lone F B} {a : o.Resp} {w : World F B}
    {f : o.Resp → Act F B α} {Q : Except Exn α → Lone F B → Prop}
    (hcalm : s.fault = .coming → ∀ e, s.stage.transient o e = false)
    (hgo : answer t o s.world = some (.ok a, w))
    (h : Always (May t) (f a) { stage := s.stage.after o (.ok a), fault := s.fault, world := w } Q) :
    Always (May t) (await o >>= f) s Q := by
  refine always_await_bind hgo h fun e w' hcoming htransient => ?_
  rw [hcalm hcoming e] at htransient
  cases htransient

/-! ## Recording a failure -/

/-- Where no fault can come any more, a delivery runs as its operations answer. -/
theorem always_of_run {p : Act F B α} {s : Lone F B} {r : Except Exn α} {w : World F B}
    {Q : Except Exn α → Lone F B → Prop} (hstage : s.stage = .recording)
    (hrun : p.run (answer t) s.world = some (r, w))
    (h : Q r { stage := .recording, fault := s.fault, world := w }) :
    Always (May t) p s Q := by
  induction p generalizing s with
  | ret outcome =>
      obtain ⟨rfl, rfl⟩ := Prod.mk.inj (Option.some.inj hrun)
      obtain ⟨stage, fault, w⟩ := s
      obtain rfl : stage = .recording := hstage
      exact h
  | op o next ih =>
      rw [run] at hrun
      cases hop : answer t o s.world with
      | none => simp [hop] at hrun
      | some x =>
          rw [hop] at hrun
          refine ⟨⟨x.1, _, .goes hop⟩, fun r' s' hmay => ?_⟩
          cases hmay with
          | goes h' =>
              obtain rfl := Option.some.inj (hop.symm.trans h')
              exact ih _ (by simp [hstage]) hrun h
          | faults coming transient => simp [hstage] at transient

/-- `save_failure` of a waiting row. -/
theorem run_saveFailure {w : World F B} {row : SimulationModel} (simulationId : Nat)
    (errorMessage : String) (hwaiting : Waiting row w) : ∃ w',
    (saveFailure simulationId errorMessage : Act F B Unit).run (answer t) w = some (.ok (), w') ∧
      Left (row.set (failureValues errorMessage)) w w' := by
  have hvisible : w.db.visible ⟨t, .own⟩ = some row :=
    (LocalDb.visible_of_free hwaiting.tx).trans hwaiting.committed
  have hclaim := LocalDb.claim_of_free (t := t) (failureValues errorMessage)
    hwaiting.tx hwaiting.committed hwaiting.pending
  simp only [saveFailure, claimAndCommit, withLocalSession, withCrmSession, announce, ensuring,
    perform, bind_def, andThen, run, answer, hvisible, hclaim, pure_def, Option.map_some,
    Option.some.injEq, Prod.mk.injEq, true_and, one_ne_zero, if_false, exists_eq_left']
  have hclaimed : Claimed t row (row.set (failureValues errorMessage)) w
      { w with db := { w.db with tx := some (claimTx t (row.set (failureValues errorMessage)) []) } } :=
    ⟨hwaiting.committed, ⟨[], rfl⟩, rfl, rfl⟩
  have hleft := hclaimed.commit.rollback ⟨t, .own⟩
  exact ⟨hleft.committed, hleft.tx, hleft.sources, hleft.nats⟩

/-- A failure is recorded whatever the fault has been. -/
theorem always_saveFailure {s : Lone F B} {row : SimulationModel} {errorMessage : String}
    (hstage : s.stage = .inputs ∨ s.stage = .recording) (hwaiting : Waiting row s.world) :
    Always (May t) (saveFailure simulationId errorMessage) s fun r s' =>
      r = .ok () ∧ s'.stage = .recording ∧ s'.fault = s.fault ∧
        Left (row.set (failureValues errorMessage)) s.world s'.world := by
  obtain ⟨w', hrun, hleft⟩ :=
    run_saveFailure (t := t) simulationId errorMessage hwaiting
  rcases hstage with hstage | hstage
  · -- the read of the row begins the recording
    obtain ⟨stage, fault, w⟩ := s
    obtain rfl : stage = .inputs := hstage
    refine ⟨⟨_, _, .goes rfl⟩, fun r' s' hmay => ?_⟩
    cases hmay with
    | goes h =>
        obtain ⟨rfl, rfl⟩ := Prod.mk.inj (Option.some.inj h)
        exact always_of_run rfl hrun ⟨rfl, rfl, rfl, hleft⟩
    | faults coming transient => cases transient
  · exact always_of_run hstage hrun ⟨rfl, rfl, rfl, hleft⟩

/-! ## Persisting a result -/

/-- What a fault leaves of a persisting: an exception, and no failed row. -/
def HitPersisting (t : Nat) (row row' : SimulationModel) (w : World F B) (r : Except Exn α)
    (s : Lone F B) : Prop :=
  (∃ text, r = .error (.other text)) ∧ s.stage = .persist ∧ s.fault = .hit .wrapped ∧
    Unsettled t row row' w s.world

omit [PyFloat F] in
theorem Stage.transient_persist {o : Op F B} {e : Exn}
    (h : Stage.persist.transient o e = true) : ∃ text, e = .other text := by
  cases o <;> cases e <;> first | exact ⟨_, rfl⟩ | cases h

omit [PyFloat F] in
/-- An operation of a persisting, hit by the fault. -/
theorem hitPersisting {o : Op F B} {e : Exn} {row row' : SimulationModel}
    {w w₀ w₁ w'' : World F B}
    (htransient : Stage.persist.transient o e = true)
    (hw : w'' = w₁ ∨ w'' = w₀ ∧ o.closes = false) (h₁ : Unsettled t row row' w w₁)
    (h₀ : o.closes = false → Unsettled t row row' w w₀) :
    HitPersisting (α := α) t row row' w (.error e)
      { stage := .persist, fault := .hit (Stage.persist.site o e), world := w'' } := by
  obtain ⟨text, rfl⟩ := Stage.transient_persist htransient
  refine ⟨⟨text, rfl⟩, rfl, rfl, ?_⟩
  rcases hw with rfl | ⟨rfl, hcloses⟩
  · exact h₁
  · exact h₀ hcloses

variable {row : SimulationModel} {result series : KeySimResult F} {path : Nat} {fault : Fault}

/-- The tree and the upload, after the claim. -/
theorem always_storeResult {row' : SimulationModel} {w w' : World F B}
    (hseries : w'.files.series path = some series) (hclaimed : Claimed t row row' w w') :
    Always (May t) (do
      await (.insertTree .own (buildKeyResult result simulationId row.idCommunity))
      await (.uploadFile (resultKeyOf simulationId row) path) : Act F B Unit)
      { stage := .persist, fault := fault, world := w' } fun r s =>
        HitPersisting t row row' w r s ∨
          s.stage = .persist ∧ s.fault = fault ∧ Claimed t row row' w s.world ∧
            if (buildKeyResult result simulationId row.idCommunity).fits then r = .ok ()
            else ∃ text, r = .error (.other text) := by
  obtain ⟨trees, htx⟩ := hclaimed.tx
  have hown : w'.db.own ⟨t, .own⟩ = some (claimTx t row' trees) :=
    (LocalDb.own_eq_some _ _).mpr ⟨htx, rfl⟩
  by_cases hfits : (buildKeyResult result simulationId row.idCommunity).fits = true
  · let tree := buildKeyResult result simulationId row.idCommunity
    have hinserted : Claimed t row row' w
        { w' with db := w'.db.addTree (claimTx t row' trees) tree } :=
      ⟨hclaimed.committed, ⟨trees ++ [tree], rfl⟩, hclaimed.sources, hclaimed.nats⟩
    refine always_await_bind
      (by simp only [answer, LocalDb.insertTree, hown, hfits, if_true]; rfl) ?_
      fun e w'' _ htransient hw => Or.inl
        (hitPersisting htransient hw hinserted.unsettled (fun _ => hclaimed.unsettled))
    have hstored : Claimed t row row' w
        { w' with
          db := w'.db.addTree (claimTx t row' trees) tree
          storage := w'.storage.putResult (resultKeyOf simulationId row) series } :=
      ⟨hinserted.committed, hinserted.tx, hinserted.sources, hinserted.nats⟩
    exact always_await (r := .ok ()) (by simp only [answer, hseries])
      (Or.inr ⟨rfl, rfl, hstored, by rw [if_pos hfits]⟩) fun e w'' _ htransient hw =>
        Or.inl (hitPersisting htransient hw hstored.unsettled (fun _ => hinserted.unsettled))
  · -- the columns refuse the tree
    refine Always.bind (Q := fun r s => HitPersisting t row row' w r s ∨
      s.stage = .persist ∧ s.fault = fault ∧ Claimed t row row' w s.world ∧
        ∃ text, r = .error (.other text))
      (always_await (w := w') (by simp only [answer, LocalDb.insertTree, hown, if_neg hfits]; rfl)
        (Or.inr ⟨rfl, rfl, hclaimed, _, rfl⟩) fun e w'' _ htransient hw =>
          Or.inl (hitPersisting htransient hw hclaimed.unsettled (fun _ => hclaimed.unsettled)))
      (fun a s h => ?_) fun e s h => ?_
    · rcases h with ⟨⟨text, h⟩, -⟩ | ⟨-, -, -, text, h⟩ <;> cases h
    · rcases h with ⟨⟨text, h⟩, hrest⟩ | ⟨hstage, hfault, hclaimed', text, h⟩
      · obtain rfl := Except.error.inj h
        exact Or.inl ⟨⟨text, rfl⟩, hrest⟩
      · obtain rfl := Except.error.inj h
        exact Or.inr ⟨hstage, hfault, hclaimed', by rw [if_neg hfits]; exact ⟨text, rfl⟩⟩

/-- The audit entry and the event of an outcome, which a fault may hit. -/
theorem always_announce (row : SimulationModel) {row' : SimulationModel} {w w' : World F B}
    {idCommunity : Nat} {payload : AuditPayload} {hint : SimulationStatus} (hleft : Left row' w w') :
    Always (May t) (announce simulationId idCommunity payload hint)
      { stage := .persist, fault := fault, world := w' } fun r s =>
        HitPersisting t row row' w r s ∨
          s.stage = .persist ∧ s.fault = fault ∧ r = .ok () ∧ Left row' w s.world := by
  have hframe : ∀ {w'' : World F B}, w''.db = w'.db → w''.storage = w'.storage →
      w''.nats = w'.nats → Left row' w w'' := by
    intro w'' hdb hstorage hnats
    exact ⟨by rw [hdb, hleft.committed], by rw [hdb, hleft.tx], by rw [hstorage, hleft.sources],
      by rw [hnats, hleft.nats]⟩
  have hsettled : ∀ {w'' : World F B}, w''.db = w'.db → w''.storage = w'.storage →
      w''.nats = w'.nats → Unsettled t row row' w w'' :=
    fun hdb hstorage hnats => (hframe hdb hstorage hnats).settled
  unfold announce withCrmSession
  refine Always.bind (Q := fun r s => HitPersisting t row row' w r s ∨
    s.stage = .persist ∧ s.fault = fault ∧ r = .ok () ∧ s.world.db = w'.db ∧
      s.world.storage = w'.storage ∧ s.world.nats = w'.nats) ?_ (fun a s h => ?_) fun e s h => ?_
  · -- the entry and its commit, then the session closes
    refine Always.ensuring (Q := fun r s => HitPersisting t row row' w r s ∨
      s.stage = .persist ∧ s.fault = fault ∧ r = .ok () ∧ s.world.db = w'.db ∧
        s.world.storage = w'.storage ∧ s.world.nats = w'.nats) ?_ fun r s h => ?_
    · refine always_calm_bind (fun _ e => by cases e <;> rfl) rfl ?_
      refine always_await rfl (Or.inr ⟨rfl, rfl, rfl, rfl, rfl, rfl⟩) fun e w'' _ htransient hw => ?_
      exact Or.inl (hitPersisting htransient hw (hsettled rfl rfl rfl)
        fun _ => hsettled rfl rfl rfl)
    · obtain ⟨stage, fault', w''⟩ := s
      rcases h with ⟨htext, hstage, hfault, hunsettled⟩ | ⟨hstage, hfault, hr, hdb, hstorage, hnats⟩
      · obtain rfl : fault' = .hit .wrapped := hfault
        exact always_calm (by simp) rfl (Or.inl ⟨htext, by rw [hstage]; rfl, rfl,
          ⟨hunsettled.committed, hunsettled.tx, hunsettled.sources, hunsettled.nats⟩⟩)
      · obtain rfl : stage = .persist := hstage
        refine always_await rfl (Or.inr ⟨rfl, hfault, hr, hdb, hstorage, hnats⟩)
          fun e w₁ _ htransient hw => Or.inl (hitPersisting htransient hw
            (hsettled hdb hstorage hnats) fun h => by cases h)
  · rcases h with ⟨⟨text, h⟩, -⟩ | ⟨hstage, hfault, -, hdb, hstorage, hnats⟩
    · cases h
    · -- the event
      obtain ⟨stage, fault', w''⟩ := s
      obtain rfl : stage = .persist := hstage
      exact always_calm (fun _ e => by cases e <;> rfl) rfl
        (Or.inr ⟨rfl, hfault, rfl, hframe hdb hstorage hnats⟩)
  · rcases h with ⟨⟨text, h⟩, hrest⟩ | ⟨-, -, h, -⟩
    · obtain rfl := Except.error.inj h
      exact Or.inl ⟨⟨text, rfl⟩, hrest⟩
    · cases h

/-- The claim's transaction, committed with its tree and its upload. -/
theorem always_claimSuccess {w : World F B} (hseries : w.files.series path = some series)
    (hwaiting : Waiting row w) :
    Always (May t) (claimAndCommit (fun row => successValues (resultKeyOf simulationId row))
      fun row => do
        await (.insertTree .own (buildKeyResult result simulationId row.idCommunity))
        await (.uploadFile (resultKeyOf simulationId row) path))
      { stage := .persist, fault := fault, world := w } fun r s =>
      HitPersisting t row (row.set (successValues (resultKeyOf simulationId row))) w r s ∨
        s.stage = .persist ∧ s.fault = fault ∧
          if (buildKeyResult result simulationId row.idCommunity).fits then
            r = .ok (some row.idCommunity) ∧
              Left (row.set (successValues (resultKeyOf simulationId row))) w s.world
          else (∃ text, r = .error (.other text)) ∧ Left row w s.world := by
  have hvisible : w.db.visible ⟨t, .own⟩ = some row :=
    (LocalDb.visible_of_free hwaiting.tx).trans hwaiting.committed
  have hclaim := LocalDb.claim_of_free (t := t)
    (successValues (resultKeyOf simulationId row)) hwaiting.tx hwaiting.committed
    hwaiting.pending
  have hstart : Left row w w := ⟨hwaiting.committed, hwaiting.tx, rfl, rfl⟩
  have hclaimed : Claimed t row (row.set (successValues (resultKeyOf simulationId row))) w
      { w with db := { w.db with
          tx := some (claimTx t (row.set (successValues (resultKeyOf simulationId row))) []) } } :=
    ⟨hwaiting.committed, ⟨[], rfl⟩, rfl, rfl⟩
  unfold claimAndCommit withLocalSession
  refine Always.ensuring (Q := fun r s =>
    HitPersisting t row (row.set (successValues (resultKeyOf simulationId row))) w r s ∨
      s.stage = .persist ∧ s.fault = fault ∧
        if (buildKeyResult result simulationId row.idCommunity).fits then
          r = .ok (some row.idCommunity) ∧
            Left (row.set (successValues (resultKeyOf simulationId row))) w s.world
        else (∃ text, r = .error (.other text)) ∧
          Claimed t row (row.set (successValues (resultKeyOf simulationId row))) w s.world)
    ?_ fun r s h => ?_
  · -- the read of the row, then the claim
    refine always_await_bind rfl ?_ fun e w' _ htransient hw => Or.inl
      (hitPersisting htransient hw hstart.unsettled (fun _ => hstart.unsettled))
    rw [hvisible]
    refine always_await_bind (by simp only [answer, hclaim]; rfl) ?_ fun e w' _ htransient hw =>
      Or.inl (hitPersisting htransient hw hclaimed.unsettled (fun _ => hstart.unsettled))
    rw [if_neg one_ne_zero]
    refine Always.bind (always_storeResult hseries hclaimed) (fun a s h => ?_) fun e s h => ?_
    · rcases h with ⟨⟨text, h⟩, -⟩ | ⟨hstage, hfault, hclaimed', hfits⟩
      · cases h
      · split_ifs at hfits with hfits'
        · -- the commit
          obtain ⟨stage, fault', w'⟩ := s
          obtain rfl : stage = .persist := hstage
          refine always_await_bind rfl ?_ fun e w'' _ htransient hw => Or.inl
            (hitPersisting htransient hw hclaimed'.commit.settled (fun _ => hclaimed'.unsettled))
          exact Or.inr ⟨rfl, hfault, by rw [if_pos hfits']; exact ⟨rfl, hclaimed'.commit⟩⟩
        · obtain ⟨text, h⟩ := hfits
          cases h
    · rcases h with h | ⟨hstage, hfault, hclaimed', hfits⟩
      · obtain ⟨⟨text, h⟩, hrest⟩ := h
        obtain rfl := Except.error.inj h
        exact Or.inl ⟨⟨text, rfl⟩, hrest⟩
      · split_ifs at hfits with hfits'
        obtain ⟨text, h⟩ := hfits
        obtain rfl := Except.error.inj h
        exact Or.inr ⟨hstage, hfault, by rw [if_neg hfits']; exact ⟨⟨text, rfl⟩, hclaimed'⟩⟩
  · -- the session closes
    obtain ⟨stage, fault', w'⟩ := s
    rcases h with ⟨htext, hstage, hfault, hunsettled⟩ | ⟨hstage, hfault, hfits⟩
    · obtain rfl : fault' = .hit .wrapped := hfault
      exact always_calm (by simp) rfl (Or.inl ⟨htext, by rw [hstage]; rfl, rfl,
        hunsettled.rollback .own⟩)
    · obtain rfl : stage = .persist := hstage
      split_ifs at hfits with hfits'
      · have hleft := hfits.2.rollback ⟨t, .own⟩
        exact always_await rfl (Or.inr ⟨rfl, hfault, by rw [if_pos hfits']; exact ⟨hfits.1, hleft⟩⟩)
          fun e w'' _ htransient hw => Or.inl
            (hitPersisting htransient hw hleft.settled (fun h => by cases h))
      · have hleft := hfits.2.rollback
        exact always_await rfl (Or.inr ⟨rfl, hfault, by rw [if_neg hfits']; exact ⟨hfits.1, hleft⟩⟩)
          fun e w'' _ htransient hw => Or.inl
            (hitPersisting htransient hw hleft.unsettled (fun h => by cases h))

/-- `save_success` of a waiting row: the result is saved if its tree fits its
columns, refused if not, and a fault fails no row. -/
theorem always_saveSuccess {w : World F B} (hseries : w.files.series path = some series)
    (hwaiting : Waiting row w) :
    Always (May t) (saveSuccess simulationId result path)
      { stage := .persist, fault := fault, world := w } fun r s =>
      HitPersisting t row (row.set (successValues (resultKeyOf simulationId row))) w r s ∨
        s.stage = .persist ∧ s.fault = fault ∧
          if (buildKeyResult result simulationId row.idCommunity).fits then
            r = .ok () ∧ Left (row.set (successValues (resultKeyOf simulationId row))) w s.world
          else (∃ text, r = .error (.other text)) ∧ Left row w s.world := by
  unfold saveSuccess
  refine Always.bind (always_claimSuccess hseries hwaiting) (fun a s h => ?_) fun e s h => ?_
  · rcases h with ⟨⟨text, h⟩, -⟩ | ⟨hstage, hfault, hfits⟩
    · cases h
    · split_ifs at hfits with hfits'
      · obtain ⟨ha, hleft⟩ := hfits
        obtain rfl := Except.ok.inj ha
        obtain ⟨stage, fault', w'⟩ := s
        obtain rfl : stage = .persist := hstage
        obtain rfl : fault' = fault := hfault
        refine (always_announce row hleft).mono fun r s h => ?_
        rcases h with h | ⟨hstage, hfault, hr, hleft⟩
        · exact Or.inl h
        · exact Or.inr ⟨hstage, hfault, by rw [if_pos hfits']; exact ⟨hr, hleft⟩⟩
      · obtain ⟨⟨text, h⟩, -⟩ := hfits
        cases h
  · rcases h with ⟨⟨text, h⟩, hrest⟩ | ⟨hstage, hfault, hfits⟩
    · obtain rfl := Except.error.inj h
      exact Or.inl ⟨⟨text, rfl⟩, hrest⟩
    · split_ifs at hfits with hfits'
      · cases hfits.1
      · obtain ⟨⟨text, h⟩, hleft⟩ := hfits
        obtain rfl := Except.error.inj h
        exact Or.inr ⟨hstage, hfault, by rw [if_neg hfits']; exact ⟨⟨text, rfl⟩, hleft⟩⟩

end Alone

end SimulationKey
