import SimulationKey.Backend.OneRun
import SimulationKey.Worker.Awaited

/-!
# A delivery leaves one run

`_handle_message` under the discipline of `Backend/OneRun.lean`, whatever the
other tasks do: what it reads of the row, the key, the upload and the readings is
what these hold at that moment, its temporary file has the series of the run it
has solved, and its claim is committed with that run's tree and object.
-/

namespace SimulationKey.OneRun

open Kit Kit.Prog Kit.Discipline

variable {F B L α β : Type}

/-! ## Assertions -/

section Triples

variable [PyFloat F] {lib : Libraries F B L} {simulationId : Nat} {start : Entry F B}
  {keys : AllocationKeyModel F → Prop} {readings : List (MeterConsumption F) → Prop} {t : Nat}

variable (lib simulationId start keys readings t) in
/-- From no transaction to none, with `K a` known after the value `a`. -/
abbrev Learns (p : Act F B α) (K : α → World F B → Prop) : Prop :=
  (oneRun lib simulationId start keys readings).Yields t (NoTx t) p K

/-- A task's transaction is of this session, and holds no SUCCESS. -/
def Losing (t : Nat) (s : SessionKind) (w : World F B) : Prop :=
  ∀ tx, w.db.tx = some tx → tx.owner.task = t →
    tx.owner = ⟨t, s⟩ ∧ ∀ row, tx.row = some row → row.status ≠ .success

/-- The file has the series of the run, or none. -/
def Holds (path : Nat) (result : KeySimResult F) (w : World F B) : Prop :=
  path < w.files.next ∧ ∀ series, w.files.series path = some series → series = result

theorem noTx_stable : (oneRun lib simulationId start keys readings).Stable t (NoTx t) :=
  fun h hrely => h.kept hrely.tx

theorem lasting_created :
    (oneRun lib simulationId start keys readings).Lasting t fun w => w.db.created = true :=
  ⟨fun h hrely => hrely.created h, fun hinv _ h hexec =>
    (DbKept.of_move hinv.db (exec_db hexec)).created h⟩

theorem lasting_unsuccessful :
    (oneRun lib simulationId start keys readings).Lasting t fun w => Unsuccessful w.db :=
  ⟨fun h hrely => hrely.unsuccessful h, fun hinv _ h hexec =>
    (DbKept.of_move hinv.db (exec_db hexec)).unsuccessful h⟩

theorem lasting_holds {path : Nat} {result : KeySimResult F} :
    (oneRun lib simulationId start keys readings).Lasting t (Holds path result) := by
  refine ⟨fun h hrely => ⟨h.1.trans_le hrely.next, fun series hseries =>
    h.2 series (hrely.series path series h.1 hseries)⟩, fun _ _ h hexec => ?_⟩
  have hfiles := filesKept_exec hexec
  exact ⟨h.1.trans_le hfiles.next, fun series hseries =>
    h.2 series (hfiles.series path series h.1 hseries)⟩

theorem losing_stable {s : SessionKind} :
    (oneRun lib simulationId start keys readings).Stable t (Losing t s) :=
  fun h hrely tx htx howner => h tx ((hrely.tx tx howner).mpr htx) howner

omit [PyFloat F] in
theorem Losing.ownTx {w : World F B} (h : Losing t .own w) : OwnTx t w :=
  fun tx htx howner => (h tx htx howner).1

omit [PyFloat F] in
theorem losing_of_noTx {w : World F B} (h : NoTx t w) (s : SessionKind) : Losing t s w :=
  fun tx htx howner => absurd howner (h tx htx)

/-! ## Operations -/

/-- An operation without a precondition that leaves the local database. -/
def calm : Op F B → Bool
  | .upload .. | .uploadFile .. | .delete (some (.result _)) => false
  | o => !o.writesDb

theorem calm_pre {o : Op F B} (ho : calm o = true) (w : World F B) :
    Pre lib simulationId start keys readings t o w := by
  cases o
  case delete key =>
    cases key with
    | none => trivial
    | some key =>
        cases key with
        | source key => trivial
        | result key => cases ho
  all_goals trivial

omit [PyFloat F] in
theorem calm_writesDb {o : Op F B} (ho : calm o = true) : o.writesDb = false := by
  cases o <;> first | rfl | cases ho

/-- A calm operation, and what its answer tells. -/
theorem learns_await {o : Op F B} {K : o.Resp → World F B → Prop} (ho : calm o = true)
    (hK : ∀ choice w w' a, Inv lib simulationId start keys readings w → NoTx t w →
      exec choice t o w = some (.ok a, w') → K a w') :
    Learns lib simulationId start keys readings t (await o) K := by
  intro w hw
  refine safe_perform (d := oneRun lib simulationId start keys readings) noTx_stable hw
    (fun w _ _ => calm_pre ho w) fun choice r w w' hinv hnoTx hexec => ?_
  refine ⟨hnoTx.exec (calm_writesDb ho) hexec, fun a ha => ?_⟩
  subst ha
  exact hK choice w w' a hinv hnoTx hexec

theorem learns_calm {p : Act F B α} (hops : p.AllOps fun o => calm o = true) :
    Learns lib simulationId start keys readings t p fun _ _ => True :=
  .of_allOps (noTx_stable)
    (hops.mono fun _ ho w _ hnoTx => ⟨calm_pre ho w, fun _ _ _ hexec =>
      hnoTx.exec (calm_writesDb ho) hexec⟩) fun _ _ _ => trivial

theorem safe_calm {p : Act F B α} (hops : p.AllOps fun o => calm o = true) (w : World F B) :
    (oneRun lib simulationId start keys readings).Safe t (fun _ _ => True) p w :=
  Polite.of_allOps (d := oneRun lib simulationId start keys readings)
    (hops.mono fun _ ho w _ => calm_pre ho w) w

/-! ## Sessions -/

/-- Closing the session leaves the task without a transaction. -/
theorem noTx_of_close {s : SessionKind} {w w' : World F B} {choice : Choice} {r : Except Exn Unit}
    (h : ∀ tx, w.db.tx = some tx → tx.owner.task = t → tx.owner = ⟨t, s⟩)
    (hexec : exec choice t (.closeLocal s) w = some (r, w')) : NoTx t w' := by
  obtain rfl := exec_closeLocal hexec
  intro tx htx howner
  cases hown : w.db.own ⟨t, s⟩ with
  | none =>
      have htx : (w.db.rollback ⟨t, s⟩).tx = some tx := htx
      rw [LocalDb.rollback_of_not_own hown] at htx
      exact (LocalDb.own_eq_none _ _).mp hown tx htx (h tx htx howner)
  | some own =>
      have htx : (w.db.rollback ⟨t, s⟩).tx = some tx := htx
      rw [LocalDb.rollback_of_own hown] at htx
      cases htx

/-- A session of the task's own: within it every transaction of the task is of
that session. -/
theorem yields_session {A : World F B → Prop} {body : Act F B α} {K : α → World F B → Prop}
    (hA : (oneRun lib simulationId start keys readings).Lasting t A)
    (hlast : ∀ a, (oneRun lib simulationId start keys readings).Lasting t (K a))
    (hbody : ∀ w, A w → NoTx t w → (oneRun lib simulationId start keys readings).Safe t
      (fun r w => OwnTx t w ∧ ∀ a, r = .ok a → K a w) body w) :
    (oneRun lib simulationId start keys readings).Yields t (fun w => A w ∧ NoTx t w)
      (withLocalSession .own body) K := by
  intro w hw
  have hsession : (oneRun lib simulationId start keys readings).Safe t
      (fun r w => NoTx t w ∧ ∀ a, r = .ok a → K a w) (withLocalSession .own body) w := by
    refine Safe.ensuring ((hbody w hw.1 hw.2).mono fun outcome w hr => ?_)
    refine safe_perform (d := oneRun lib simulationId start keys readings)
      (A := fun w => OwnTx t w ∧ ∀ a, outcome = .ok a → K a w) ?_ hr (fun _ _ _ => trivial)
      fun choice r w w' hinv hbody hexec => ?_
    · exact fun h hrely => ⟨h.1.kept hrely.tx, fun a ha => (hlast a).stable (h.2 a ha) hrely⟩
    · have hclosed := noTx_of_close hbody.1 hexec
      cases r with
      | error e => exact ⟨hclosed, fun _ h => by cases h⟩
      | ok u =>
          exact ⟨hclosed, fun a ha =>
            (hlast a).exec (o := .closeLocal .own) hinv trivial (hbody.2 a ha) hexec⟩
  exact (Safe.known hA hw.1 hsession).mono fun r w hr => ⟨⟨hr.1, hr.2.1⟩, hr.2.2⟩

/-- From no transaction, with nothing else known. -/
theorem learns_of_yields {p : Act F B α} {K : α → World F B → Prop}
    (h : (oneRun lib simulationId start keys readings).Yields t (fun w => True ∧ NoTx t w) p K) :
    Learns lib simulationId start keys readings t p K := fun w hw =>
  (h w ⟨trivial, hw⟩).mono fun _ _ hr => ⟨hr.1.2, hr.2⟩

/-- A commit has happened, or has raised. -/
theorem commit_cases {s : SessionKind} {w w' : World F B} {choice : Choice} {r : Except Exn Unit}
    (hexec : exec choice t (.commitLocal s) w = some (r, w')) :
    w' = { w with db := w.db.commit ⟨t, s⟩ } ∨ w' = w ∧ r ≠ .ok () := by
  cases choice with
  | ok => exact Or.inl (Prod.mk.inj (Option.some.inj hexec)).2.symm
  | fail e =>
      simp only [exec] at hexec
      split_ifs at hexec
      obtain ⟨rfl, rfl⟩ := Prod.mk.inj (Option.some.inj hexec)
      exact Or.inr ⟨rfl, by simp⟩
  | lost e =>
      simp only [exec] at hexec
      split_ifs at hexec
      exact Or.inl (Prod.mk.inj (Option.some.inj hexec)).2.symm
  | swallowed => simp [exec, Op.swallows] at hexec

omit [PyFloat F] in
theorem Losing.committed {s : SessionKind} {w : World F B} (h : Losing t s w) :
    NoTx t { w with db := w.db.commit ⟨t, s⟩ } := by
  intro tx htx howner
  have htx : (w.db.commit ⟨t, s⟩).tx = some tx := htx
  cases hown : w.db.own ⟨t, s⟩ with
  | none =>
      rw [LocalDb.commit_of_not_own hown] at htx
      exact (LocalDb.own_eq_none _ _).mp hown tx htx (h tx htx howner).1
  | some own =>
      rw [LocalDb.commit_of_own hown] at htx
      cases htx

/-- A commit of what is no SUCCESS. Told that it has happened, the task has no
transaction left. -/
theorem safe_commit_losing {s : SessionKind} {w : World F B} (hw : Losing t s w) :
    (oneRun lib simulationId start keys readings).Safe t
      (fun r w => Losing t s w ∧ (r = .ok () → NoTx t w)) (await (.commitLocal s)) w := by
  refine safe_perform (d := oneRun lib simulationId start keys readings) losing_stable hw
    (fun w _ hlosing tx row hown hrow hsuccess => ?_) fun choice r w w' _ hlosing hexec => ?_
  · obtain ⟨htx, howner⟩ := (LocalDb.own_eq_some _ _).mp hown
    exact absurd hsuccess ((hlosing tx htx (by rw [howner])).2 row hrow)
  · rcases commit_cases hexec with rfl | ⟨rfl, hraised⟩
    · exact ⟨losing_of_noTx hlosing.committed s, fun _ => hlosing.committed⟩
    · exact ⟨hlosing, fun hok => absurd hok hraised⟩

/-! ## Reading the row -/

/-- What a session that holds nothing reads of the row. -/
def Read (simulationId : Nat) (start : Entry F B) (read : Option SimulationModel)
    (w : World F B) : Prop :=
  ∀ row, read = some row → Creates simulationId start (asCreated row) ∧
    Consistent simulationId row ∧ w.db.created = true ∧
      (row.status = .failed → Unsuccessful w.db)

theorem lasting_read {read : Option SimulationModel} :
    (oneRun lib simulationId start keys readings).Lasting t (Read simulationId start read) :=
  .forall fun _ => .imp (.and .always (.and .always (.and lasting_created
    (.imp lasting_unsuccessful))))

theorem read_of_visible {w : World F B} {s : SessionKind}
    (hinv : Inv lib simulationId start keys readings w) (hnoTx : NoTx t w) :
    Read simulationId start (w.db.visible ⟨t, s⟩) w := by
  intro row hrow
  have hown : w.db.own ⟨t, s⟩ = none :=
    (LocalDb.own_eq_none _ _).mpr fun tx htx howner => hnoTx tx htx (by rw [howner])
  have hrow : w.db.row = some row := by simpa [LocalDb.visible, hown] using hrow
  refine ⟨hinv.db.creates row hrow, hinv.db.consistent row hrow, hinv.db.created row hrow,
    fun hfailed => ⟨hinv.db.created row hrow, fun row' hrow' => ?_⟩⟩
  obtain rfl := Option.some.inj (hrow.symm.trans hrow')
  exact hfailed

theorem learns_getRow (s : SessionKind) :
    Learns lib simulationId start keys readings t (await (.getRow s) : Act F B _)
      (Read simulationId start) := by
  refine learns_await rfl fun choice w w' row hinv hnoTx hexec => ?_
  obtain ⟨hrow, rfl⟩ := Prod.mk.inj (Option.some.inj (exec_ok rfl hexec))
  obtain rfl := Except.ok.inj hrow
  exact read_of_visible hinv hnoTx

theorem learns_getSimulationRow (s : SessionKind) (community : Nat) :
    Learns lib simulationId start keys readings t
      (await (.getSimulationRow s community) : Act F B _) (Read simulationId start) := by
  refine learns_await rfl fun choice w w' row hinv hnoTx hexec => ?_
  obtain ⟨hrow, rfl⟩ := Prod.mk.inj (Option.some.inj (exec_ok rfl hexec))
  obtain rfl := Except.ok.inj hrow
  intro row hrow
  exact read_of_visible hinv hnoTx row (Option.filter_eq_some_iff.mp hrow).1

/-! ## The writers -/

/-- A statement of the session from no transaction leaves at most one of its own. -/
theorem mine_claim {w w' : World F B} {choice : Choice} {values : RowValues} {r : Except Exn Nat}
    (h : NoTx t w) (hexec : exec choice t (.claim .own values) w = some (r, w')) : OwnTx t w' := by
  have hmove := exec_db hexec
  unfold OwnTx
  generalize w'.db = db at hmove ⊢
  cases hmove with
  | same => exact h.ownTx
  | claim free visible pending =>
      intro tx htx _
      obtain rfl := Option.some.inj htx
      rfl

theorem ownTx_commit {w w' : World F B} {choice : Choice} {r : Except Exn Unit} (h : OwnTx t w)
    (hexec : exec choice t (.commitLocal .own) w = some (r, w')) : OwnTx t w' := by
  rcases commit_cases hexec with rfl | ⟨rfl, -⟩
  · intro tx htx howner
    have htx : (w.db.commit ⟨t, .own⟩).tx = some tx := htx
    cases hown : w.db.own ⟨t, .own⟩ with
    | none =>
        rw [LocalDb.commit_of_not_own hown] at htx
        exact h tx htx howner
    | some own =>
        rw [LocalDb.commit_of_own hown] at htx
        cases htx
  · exact h

/-- A claim, what its session does besides, and the commit. `R` is what allows the
commit, `A` what the task knows. -/
theorem yields_claimAndCommit {A : World F B → Prop} {values : SimulationModel → RowValues}
    {rest : SimulationModel → Act F B Unit} {C R : SimulationModel → World F B → Prop}
    (hA : (oneRun lib simulationId start keys readings).Lasting t A)
    (hdecides : ∀ row, Creates simulationId start (asCreated row) →
      Decides simulationId start (values row))
    (hclaimed : ∀ row (w : World F B) old, Creates simulationId start (asCreated row) →
      Creates simulationId start (asCreated old) → NoTx t w →
        C row { w with db := w.db.stage ⟨t, .own⟩ (some (old.set (values row))) true })
    (hrest : ∀ row w, Creates simulationId start (asCreated row) → A w → C row w →
      (oneRun lib simulationId start keys readings).Safe t
        (fun r w => OwnTx t w ∧ (r = .ok () → R row w)) (rest row) w)
    (hstable : ∀ row, (oneRun lib simulationId start keys readings).Stable t (R row))
    (hcommit : ∀ row w, R row w →
      Pre lib simulationId start keys readings t (.commitLocal .own) w) :
    (oneRun lib simulationId start keys readings).Yields t (fun w => A w ∧ NoTx t w)
      (claimAndCommit values rest) fun _ _ => True := by
  refine yields_session hA (fun _ => .always) fun w hAw hw => Safe.bind
    (((learns_getRow .own).knowing hA w ⟨hAw, hw⟩).mono fun r w hread => ?_)
  cases r with
  | error e => exact ⟨hread.1.2.ownTx, fun _ _ => trivial⟩
  | ok read =>
      cases read with
      | none => exact ⟨hread.1.2.ownTx, fun _ _ => trivial⟩
      | some row =>
          obtain ⟨hbase, hread⟩ := hread
          obtain ⟨hcreates, -⟩ := hread _ rfl row rfl
          refine Safe.bind (safe_perform (d := oneRun lib simulationId start keys readings)
            (A := fun w => A w ∧ NoTx t w)
            (fun h hrely => ⟨hA.stable h.1 hrely, h.2.kept hrely.tx⟩) hbase
            (fun w _ h => ⟨h.2, hdecides row hcreates⟩) fun choice r w w' hinv h hexec => ?_)
          have hA' : A w' := hA.exec (o := .claim .own (values row)) hinv
            ⟨h.2, hdecides row hcreates⟩ h.1 hexec
          cases r with
          | error e => exact ⟨mine_claim h.2 hexec, fun _ _ => trivial⟩
          | ok n =>
              by_cases hn : n = 0
              · simp only [hn, if_true]
                exact ⟨mine_claim h.2 hexec, fun _ _ => trivial⟩
              · simp only [hn, if_false]
                have hclaim : C row w' := by
                  obtain ⟨x, hx, heq⟩ := Option.map_eq_some_iff.mp (exec_ok rfl hexec)
                  obtain ⟨hr, rfl⟩ := Prod.mk.inj heq
                  rcases claim_cases (r := x.1) hx with
                    ⟨old, -, hfree, hvisible, -, hdb⟩ | ⟨hnone, -⟩
                  · rw [h.2.visible] at hvisible
                    rw [hdb]
                    exact hclaimed row w old hcreates (hinv.db.creates old hvisible) h.2
                  · exact absurd (Except.ok.inj (hr.symm.trans hnone)) hn
                refine Safe.bind ((hrest row w' hcreates hA' hclaim).mono fun r w hready => ?_)
                cases r with
                | error e => exact ⟨hready.1, fun _ _ => trivial⟩
                | ok u =>
                    refine Safe.bind (safe_perform
                      (d := oneRun lib simulationId start keys readings)
                      (A := fun w => OwnTx t w ∧ R row w)
                      (fun h hrely => ⟨h.1.kept hrely.tx, hstable row h.2 hrely⟩)
                      ⟨hready.1, hready.2 rfl⟩ (fun w _ h => hcommit row w h.2)
                      fun choice r w w' _ h hexec => ?_)
                    cases r with
                    | error e => exact ⟨ownTx_commit h.1 hexec, fun _ _ => trivial⟩
                    | ok u => exact ⟨ownTx_commit h.1 hexec, fun _ _ => trivial⟩

omit [PyFloat F] in
theorem calm_announce (id idCommunity : Nat) (payload : AuditPayload) (hint : SimulationStatus) :
    (announce id idCommunity payload hint : Act F B Unit).AllOps fun o => calm o = true :=
  .bind (.ensuring (.bind (.perform rfl) fun _ => .perform rfl) (.perform rfl))
    fun _ => .perform rfl

omit [PyFloat F] in
theorem decides_failure (errorMessage : String) :
    Decides simulationId start (failureValues errorMessage) := by
  intro row _ _ _
  exact ⟨⟨_, rfl, Text.length_clip_le _ _⟩, by simp [failureValues]⟩

theorem learns_saveFailure (errorMessage : String) :
    Learns lib simulationId start keys readings t (saveFailure simulationId errorMessage)
      fun _ _ => True := by
  refine (learns_of_yields (yields_claimAndCommit (C := fun _ => Losing t .own)
    (R := fun _ => Losing t .own) .always (fun _ _ => decides_failure errorMessage) ?_ ?_
    (fun _ => losing_stable) ?_)).next fun committed => ?_
  · intro row w old _ _ _ tx htx _
    obtain rfl := Option.some.inj htx
    refine ⟨rfl, fun row' hrow' hsuccess => ?_⟩
    obtain rfl := Option.some.inj hrow'
    cases hsuccess
  · exact fun row w _ _ hlosing => ⟨hlosing.ownTx, fun _ => hlosing⟩
  · intro row w hlosing tx new hown hnew hsuccess
    obtain ⟨htx, howner⟩ := (LocalDb.own_eq_some _ _).mp hown
    exact absurd hsuccess ((hlosing tx htx (by rw [howner])).2 new hnew)
  · cases committed with
    | none => exact .pure fun _ _ => trivial
    | some idCommunity => exact learns_calm (calm_announce _ _ _ _)

/-- The session holds a SUCCESS with these trees. -/
def Claims (simulationId : Nat) (start : Entry F B) (t : Nat)
    (trees : List (SimulationKeyResultModel F)) (w : World F B) : Prop :=
  ∃ tx row, w.db.tx = some tx ∧ tx.owner = ⟨t, .own⟩ ∧ tx.trees = trees ∧ tx.row = some row ∧
    row.status = .success ∧ Creates simulationId start (asCreated row)

omit [PyFloat F] in
theorem Claims.wins {trees : List (SimulationKeyResultModel F)} {w : World F B}
    (h : Claims simulationId start t trees w) : Wins t w := by
  obtain ⟨tx, row, htx, howner, -, hrow, hsuccess, -⟩ := h
  exact ⟨tx, row, htx, by rw [howner], hrow, hsuccess⟩

omit [PyFloat F] in
theorem Claims.ownTx {trees : List (SimulationKeyResultModel F)} {w : World F B}
    (h : Claims simulationId start t trees w) : OwnTx t w := by
  obtain ⟨tx, row, htx, howner, -⟩ := h
  intro tx' htx' _
  obtain rfl := Option.some.inj (htx.symm.trans htx')
  exact howner

theorem claims_stable {trees : List (SimulationKeyResultModel F)} :
    (oneRun lib simulationId start keys readings).Stable t
      (Claims simulationId start t trees) := by
  rintro w w' ⟨tx, row, htx, howner, hrest⟩ hrely
  exact ⟨tx, row, (hrely.tx tx (by rw [howner])).mp htx, howner, hrest⟩

omit [PyFloat F] in
theorem decides_success {row : SimulationModel}
    (hrow : Creates simulationId start (asCreated row)) :
    Decides simulationId start (successValues (resultKeyOf simulationId row)) := by
  intro row' hrow' _ _
  refine ⟨⟨rfl, ?_⟩, by simp [successValues]⟩
  have heq := resultKeyOf_eq hrow hrow'
  exact congrArg some heq

/-- The tree, then the object, under the claim. -/
theorem safe_treeAndObject {w : World F B} {row : SimulationModel} {result : KeySimResult F}
    {path : Nat} (hw : Claims simulationId start t [] w) (hfile : Holds path result w) :
    (oneRun lib simulationId start keys readings).Safe t
      (fun r w => OwnTx t w ∧ (r = .ok () →
        Claims simulationId start t
          [buildKeyResult (withoutSeries result) simulationId row.idCommunity] w ∧
        w.storage.results (resultKeyOf simulationId row) = some result))
      (await (.insertTree .own
        (buildKeyResult (withoutSeries result) simulationId row.idCommunity)) >>= fun _ =>
          await (.uploadFile (resultKeyOf simulationId row) path)) w := by
  refine Safe.bind (safe_perform (d := oneRun lib simulationId start keys readings)
    (A := fun w => Claims simulationId start t [] w ∧ Holds path result w)
    (fun h hrely => ⟨claims_stable h.1 hrely, lasting_holds.stable h.2 hrely⟩) ⟨hw, hfile⟩
    (fun w _ h => h.1.wins) fun choice r w w' hinv h hexec => ?_)
  obtain ⟨⟨tx, new, htx, howner, htrees, hnew, hsuccess, hcreates⟩, hfile⟩ := h
  have hfile' := lasting_holds.exec (d := oneRun lib simulationId start keys readings)
    (o := .insertTree .own (buildKeyResult (withoutSeries result) simulationId row.idCommunity))
    hinv (Claims.wins ⟨tx, new, htx, howner, htrees, hnew, hsuccess, hcreates⟩) hfile hexec
  have hown : w.db.own ⟨t, .own⟩ = some tx := (LocalDb.own_eq_some _ _).mpr ⟨htx, howner⟩
  have hownTx : OwnTx t w' := by
    have hmove := exec_db hexec
    unfold OwnTx
    generalize w'.db = db at hmove ⊢
    cases hmove with
    | same => exact Claims.ownTx ⟨tx, new, htx, howner, htrees, hnew, hsuccess, hcreates⟩
    | tree own =>
        obtain ⟨-, howner⟩ := (LocalDb.own_eq_some _ _).mp own
        intro tx' htx' _
        obtain rfl := Option.some.inj htx'
        exact howner
  cases r with
  | error e => exact ⟨hownTx, fun h => by cases h⟩
  | ok u =>
      have htree : Claims simulationId start t
          [buildKeyResult (withoutSeries result) simulationId row.idCommunity] w' := by
        obtain ⟨x, hx, heq⟩ := Option.map_eq_some_iff.mp (exec_ok rfl hexec)
        obtain ⟨hr, rfl⟩ := Prod.mk.inj heq
        unfold LocalDb.insertTree at hx
        simp only [hown] at hx
        split_ifs at hx
        · rw [← Option.some.inj hx]
          exact ⟨_, new, rfl, howner, by simp [htrees], hnew, hsuccess, hcreates⟩
        · rw [← Option.some.inj hx] at hr
          cases hr
      refine safe_perform (d := oneRun lib simulationId start keys readings)
        (A := fun w => Claims simulationId start t
          [buildKeyResult (withoutSeries result) simulationId row.idCommunity] w ∧
            Holds path result w)
        (fun h hrely => ⟨claims_stable h.1 hrely, lasting_holds.stable h.2 hrely⟩)
        ⟨htree, hfile'⟩ (fun w _ h => h.1.wins) fun choice r w₁ w₂ _ h hexec => ?_
      have hdb := (exec_db hexec).eq_of_not_writesDb rfl
      have hclaims : Claims simulationId start t
          [buildKeyResult (withoutSeries result) simulationId row.idCommunity] w₂ := by
        obtain ⟨tx, new, htx, hrest⟩ := h.1
        exact ⟨tx, new, hdb ▸ htx, hrest⟩
      refine ⟨hclaims.ownTx, fun hok => ⟨hclaims, ?_⟩⟩
      subst hok
      have hdone := exec_ok rfl hexec
      simp only [answer] at hdone
      split at hdone
      · cases hdone
      · rename_i series hseries
        obtain ⟨-, rfl⟩ := Prod.mk.inj (Option.some.inj hdone)
        obtain rfl := h.2.2 series hseries
        simp [ObjectStore.putResult]

/-- The writer of a run that is in a file. -/
theorem yields_saveSuccess {row : SimulationModel} {result : KeySimResult F} {path : Nat}
    (hrow : Creates simulationId start (asCreated row))
    (hrun : Run lib start keys readings row result) :
    (oneRun lib simulationId start keys readings).Yields t
      (fun w => Holds path result w ∧ NoTx t w)
      (saveSuccess simulationId (withoutSeries result) path) fun _ _ => True := by
  refine (yields_claimAndCommit (C := fun _ => Claims simulationId start t [])
    (R := fun read w => Creates simulationId start (asCreated read) ∧ Claims simulationId start t
      [buildKeyResult (withoutSeries result) simulationId read.idCommunity] w ∧
        w.storage.results (resultKeyOf simulationId read) = some result)
    lasting_holds (fun read hread => decides_success hread) ?_ ?_ ?_ ?_).next fun committed => ?_
  · intro read w old _ hold hnoTx
    have hown : w.db.own ⟨t, .own⟩ = none :=
      (LocalDb.own_eq_none _ _).mpr fun tx htx howner => hnoTx tx htx (by rw [howner])
    exact ⟨_, _, rfl, rfl, by simp [hown], rfl, rfl, hold⟩
  · exact fun read w hread hfile hclaims => (safe_treeAndObject hclaims hfile).mono
      fun r w hr => ⟨hr.1, fun hok => ⟨hread, hr.2 hok⟩⟩
  · rintro read w w' ⟨hread, hclaims, hstored⟩ hrely
    refine ⟨hread, claims_stable hclaims hrely, ?_⟩
    rw [hrely.results hclaims.wins]
    exact hstored
  · rintro read w ⟨hread, ⟨tx, new, htx, howner, htrees, hnew, hsuccess, hcreates⟩, hstored⟩
      tx' row' hown hrow' -
    obtain rfl := Option.some.inj (htx.symm.trans ((LocalDb.own_eq_some _ _).mp hown).1)
    obtain rfl := Option.some.inj (hnew.symm.trans hrow')
    have hkey := resultKeyOf_eq hread hcreates
    have hcommunity : read.idCommunity = new.idCommunity := congrArg (·.community) hkey
    refine ⟨result, hrun.of_same (sameInput_of_creates hrow hcreates), ?_, ?_⟩
    · exact (congrArg w.storage.results hkey).symm.trans hstored
    · rw [htrees, hcommunity]
  · refine Yields.mono (K := fun _ _ => True) ?_ fun _ _ _ => trivial
    cases committed with
    | none => exact .pure fun _ _ => trivial
    | some idCommunity => exact (learns_calm (calm_announce _ _ _ _)).knowing lasting_holds

/-! ## A delivery -/

theorem learns_settle (errorMessage : String) (key : Option SourceKey)
    {K : Except (Option SourceKey) α → World F B → Prop} (hK : ∀ w, K (.error key) w) :
    Learns lib simulationId start keys readings t (settle simulationId errorMessage key) K :=
  (learns_saveFailure errorMessage).next fun _ => .pure fun w _ => hK w

theorem learns_snapshot :
    Learns lib simulationId start keys readings t snapshotSimulation (Read simulationId start) := by
  refine learns_of_yields (yields_session .always (fun _ => lasting_read) fun w _ hw => ?_)
  exact (learns_getRow .own w hw).mono fun r w hr => ⟨hr.1.ownTx, hr.2⟩

/-- A key that is read is one that the CRM holds. -/
theorem learns_readCrmKey {row : SimulationModel}
    (hrow : Creates simulationId start (asCreated row)) :
    Learns lib simulationId start keys readings t
      (orTransient "crm read: " (readCrmKey row.idKey row.idCommunity))
      fun read _ => ∀ key, read = some key → keys key := by
  refine Yields.tryCatch (Yields.ensuring ?_ (fun _ => .always) (learns_calm (.perform rfl)))
    fun _ => .raise _
  refine learns_await rfl fun choice w w' read hinv _ hexec key hread => ?_
  obtain ⟨hanswer, rfl⟩ := Prod.mk.inj (Option.some.inj (exec_ok rfl hexec))
  obtain rfl := Except.ok.inj hanswer
  exact hinv.crm.1 key ((heldKey_eq w.crm hrow).symm.trans hread)

/-- The input is one whose runs are the row's. -/
def Loads (lib : Libraries F B L) (start : Entry F B) (keys : AllocationKeyModel F → Prop)
    (readings : List (MeterConsumption F) → Prop) (row : SimulationModel)
    (key : AllocationKeyModel F) (raw : SimulationRawData F) : Prop :=
  ∀ result, solve (keyInputOf row.source key) raw = .ok result →
    Run lib start keys readings row result

/-- What is downloaded is what was uploaded. -/
theorem learns_downloadSource {row : SimulationModel} {key : SourceKey}
    (hrow : Creates simulationId start (asCreated row)) (hkey : row.fileStorageKey = some key) :
    Learns lib simulationId start keys readings t (downloadSource simulationId key)
      fun loaded _ => ∀ content, loaded = .ok content →
        (uploadOf start).map (·.2) = some content := by
  refine Yields.tryCatch (Yields.bind (K := fun content _ =>
    (uploadOf start).map (·.2) = some content) ?_ (fun _ => .always) fun content => ?_) fun e => ?_
  · refine learns_await rfl fun choice w w' content hinv _ hexec => ?_
    have hdone := exec_ok rfl hexec
    simp only [answer] at hdone
    split at hdone
    · cases hdone
    · rename_i stored hstored
      obtain ⟨hanswer, -⟩ := Prod.mk.inj (Option.some.inj hdone)
      obtain rfl := Except.ok.inj hanswer
      obtain ⟨sent, hsent⟩ := uploadOf_of_key hrow hkey
      obtain rfl := hinv.upload key sent hsent stored hstored
      rw [hsent]
      rfl
  · refine .pure fun w _ hcontent content' heq => ?_
    obtain rfl := Except.ok.inj heq
    exact hcontent
  · cases e with
    | objectNotFound text => exact learns_settle _ _ fun _ _ h => by cases h
    | transientStorage text => exact .raise _
    | _ => exact .raise _

theorem learns_loadFromFile {row : SimulationModel} {key : AllocationKeyModel F}
    (hrow : Creates simulationId start (asCreated row)) (hkey : keys key)
    (hsource : row.source = .file) :
    Learns lib simulationId start keys readings t
      (loadFromFile lib simulationId row (consumerNamesOf (keyInputOf row.source key)))
      fun loaded _ => ∀ raw, loaded = .ok raw → Loads lib start keys readings row key raw := by
  unfold loadFromFile
  split
  · rename_i storageKey fileName hstorageKey hname
    refine (learns_downloadSource hrow hstorageKey).bind (fun _ => .always) fun downloaded => ?_
    cases downloaded with
    | error terminal => exact .pure fun _ _ _ raw h => by cases h
    | ok content =>
        simp only
        cases hload : loadUpload lib content fileName (row.injectionName.getD "")
            (consumerNamesOf (keyInputOf row.source key)) with
        | error failure => exact learns_settle _ _ fun _ _ raw h => by cases h
        | ok raw =>
            refine .pure fun w _ hcontent raw' heq result hsolve => ?_
            obtain rfl := Except.ok.inj heq
            exact Produces.of_loadUpload hsource hkey (hcontent content rfl) hname hload hsolve
  · exact learns_settle _ _ fun _ raw h => by cases h

/-- The two queries of a period, each over readings that the CRM holds. -/
theorem learns_readPeriod {row : SimulationModel} {op first last iterations : Nat}
    {consumerNames : List String} (hrow : Creates simulationId start (asCreated row))
    (hop : row.idSharingOperation = some op) (hfirst : row.periodStart = some first)
    (hlast : row.periodEnd = some last) :
    Learns lib simulationId start keys readings t
      (readPeriod row.idCommunity op first last consumerNames iterations)
      fun period _ => ∃ seen fetched summary, readings seen ∧ readings fetched ∧
        summarize seen = .ok summary ∧ period.1 = evaluate summary consumerNames iterations ∧
          period.2 = if period.1.ok then fetchRows fetched else [] := by
  have hread : ∀ {w : World F B}, Inv lib simulationId start keys readings w →
      ∀ bounds, sentBounds first last = .ok bounds →
        readings (w.crm.meterConsumption row.idCommunity op bounds.1 bounds.2) :=
    fun hinv bounds hbounds => hinv.crm.2 _ (heldReadings_eq _ hrow hop hfirst hlast hbounds)
  refine Yields.ensuring ?_ (fun _ => .always) (learns_calm (.perform rfl))
  refine Yields.bind (K := fun summary _ => ∃ seen, readings seen ∧
    summarize seen = .ok summary) ?_ (fun _ => .always) fun summary => ?_
  · refine learns_await rfl fun choice w w' summary hinv _ hexec => ?_
    have hdone := exec_ok rfl hexec
    simp only [answer] at hdone
    split at hdone
    · cases hdone
    · rename_i from_ until_ hbounds
      obtain ⟨hanswer, -⟩ := Prod.mk.inj (Option.some.inj hdone)
      exact ⟨_, hread hinv _ hbounds, ok_of_mapError hanswer⟩
  · by_cases hok : (evaluate summary consumerNames iterations).ok = true
    · simp only [hok, if_true]
      refine Yields.bind (K := fun rows _ => ∃ fetched, readings fetched ∧
        rows = fetchRows fetched) ?_ (fun _ => .always) fun rows => ?_
      · refine learns_await rfl fun choice w w' rows hinv _ hexec => ?_
        have hdone := exec_ok rfl hexec
        simp only [answer] at hdone
        split at hdone
        · cases hdone
        · rename_i from_ until_ hbounds
          obtain ⟨hanswer, -⟩ := Prod.mk.inj (Option.some.inj hdone)
          obtain rfl := Except.ok.inj hanswer
          exact ⟨_, hread hinv _ hbounds, rfl⟩
      · refine .pure ?_
        rintro w - ⟨fetched, hfetched, rfl⟩ ⟨seen, hseen, hsummary⟩
        exact ⟨seen, fetched, summary, hseen, hfetched, hsummary, rfl, by simp [hok]⟩
    · simp only [hok, Bool.false_eq_true, if_false]
      refine .pure ?_
      rintro w - ⟨seen, hseen, hsummary⟩
      exact ⟨seen, seen, summary, hseen, hseen, hsummary, rfl, by simp [hok]⟩

theorem learns_loadFromCrm {row : SimulationModel} {key : AllocationKeyModel F}
    (hrow : Creates simulationId start (asCreated row)) (hkey : keys key)
    (hsource : row.source = .crm) :
    Learns lib simulationId start keys readings t
      (loadFromCrm simulationId row (consumerNamesOf (keyInputOf row.source key))
        (keyInputOf row.source key).iterations.length)
      fun loaded _ => ∀ raw, loaded = .ok raw → Loads lib start keys readings row key raw := by
  unfold loadFromCrm
  split
  · rename_i op first last hop hfirst hlast
    refine (Yields.tryCatch (learns_readPeriod hrow hop hfirst hlast) fun _ => .raise _).bind
      (fun _ => .always) fun period => ?_
    cases hload : loadRows period.1 period.2 with
    | error failure => exact learns_settle _ _ fun _ _ raw h => by cases h
    | ok raw =>
        refine .pure ?_
        rintro w - ⟨seen, fetched, summary, hseen, hfetched, hsummary, hpreflight, hrows⟩ raw' heq
          result hsolve
        obtain rfl := Except.ok.inj heq
        rw [hsource] at hpreflight hsolve
        rw [hrows, hpreflight] at hload
        exact .crm hsource hkey hseen hfetched hsummary hload hsolve
  · exact learns_settle _ _ fun _ raw h => by cases h

theorem learns_loadSource {row : SimulationModel} {key : AllocationKeyModel F}
    (hrow : Creates simulationId start (asCreated row)) (hkey : keys key) :
    Learns lib simulationId start keys readings t
      (loadSource lib simulationId row (keyInputOf row.source key))
      fun loaded _ => ∀ raw, loaded = .ok raw → Loads lib start keys readings row key raw := by
  unfold loadSource
  split
  · rename_i hsource
    exact learns_loadFromCrm hrow hkey hsource
  · rename_i hsource
    exact learns_loadFromFile hrow hkey hsource

/-- What a solve hands over is a run of its input, with its series in the file. -/
def Solved (keyInput : SimulationKeyInput F) (raw : SimulationRawData F)
    (solved : KeySimResult F × Nat) (w : World F B) : Prop :=
  ∃ result, runSimulation keyInput raw.C raw.VA raw.consumerNames = .ok result ∧
    solved.1 = withoutSeries result ∧ Holds solved.2 result w

theorem lasting_solved {keyInput : SimulationKeyInput F} {raw : SimulationRawData F}
    {solved : KeySimResult F × Nat} :
    (oneRun lib simulationId start keys readings).Lasting t (Solved keyInput raw solved) := by
  refine ⟨?_, ?_⟩
  · rintro w w' ⟨result, hrun, hscalars, hfile⟩ hrely
    exact ⟨result, hrun, hscalars, lasting_holds.stable hfile hrely⟩
  · rintro choice o w r w' hinv hpre ⟨result, hrun, hscalars, hfile⟩ hexec
    exact ⟨result, hrun, hscalars, lasting_holds.exec hinv hpre hfile hexec⟩

theorem learns_runSolver (keyInput : SimulationKeyInput F) (raw : SimulationRawData F) :
    Learns lib simulationId start keys readings t (runSolver keyInput raw)
      (Solved keyInput raw) := by
  refine Yields.tryCatch (learns_await rfl fun choice w w' solved _ _ hexec => ?_) fun e => ?_
  · have hdone := exec_ok rfl hexec
    simp only [answer] at hdone
    split at hdone
    · cases hdone
    · rename_i result hresult
      obtain ⟨hanswer, rfl⟩ := Prod.mk.inj (Option.some.inj hdone)
      obtain rfl := Except.ok.inj hanswer
      refine ⟨result, hresult, rfl, Nat.lt_succ_self _, fun series hseries => ?_⟩
      simpa [eq_comm] using hseries
  · cases e <;> exact .raise _

theorem learns_afterSolverCrash (delivered : Option Nat) (text : String) (key : Option SourceKey)
    {K : Except (Option SourceKey) α → World F B → Prop} (hK : ∀ w, K (.error key) w) :
    Learns lib simulationId start keys readings t
      (afterSolverCrash simulationId delivered text key) K := by
  unfold afterSolverCrash
  cases delivered with
  | none => exact learns_settle _ _ hK
  | some n =>
      simp only
      split
      · exact .raise _
      · exact learns_settle _ _ hK

/-- What a solve yields, unless it was settled. -/
def Solves (keyInput : SimulationKeyInput F) (raw : SimulationRawData F) :
    Except (Option SourceKey) (KeySimResult F × Nat) → World F B → Prop
  | .ok solved, w => Solved keyInput raw solved w
  | .error _, _ => True

theorem learns_solveRun (delivered : Option Nat) (row : SimulationModel)
    (keyInput : SimulationKeyInput F) (raw : SimulationRawData F) :
    Learns lib simulationId start keys readings t
      (solveRun simulationId delivered row keyInput raw) (Solves keyInput raw) := by
  refine Yields.tryCatch ((learns_runSolver keyInput raw).bind (fun _ => lasting_solved)
    fun solved => .pure fun w _ hsolved => hsolved) fun e => ?_
  cases e with
  | solverCrash text => exact learns_afterSolverCrash _ _ _ fun _ => trivial
  | cancelled => exact .raise _
  | _ => exact learns_settle _ _ fun _ => trivial

/-- A solved run is saved as what it is. -/
theorem yields_persistRun {row : SimulationModel} {key : AllocationKeyModel F}
    {raw : SimulationRawData F} {solved : KeySimResult F × Nat}
    (hrow : Creates simulationId start (asCreated row))
    (hloads : Loads lib start keys readings row key raw)
    (hsize : tooLarge raw.C.rows raw.C.cols (keyInputOf row.source key).iterations.length = none) :
    (oneRun lib simulationId start keys readings).Yields t
      (fun w => Solved (keyInputOf row.source key) raw solved w ∧ NoTx t w)
      (persistRun simulationId solved) fun _ _ => True := by
  rintro w ⟨⟨result, hresult, hscalars, hfile⟩, hw⟩
  obtain ⟨scalars, path⟩ := solved
  obtain rfl : scalars = withoutSeries result := hscalars
  have hrun := hloads result (solve_ok_iff.mpr ⟨hsize, hresult⟩)
  have hsave : (oneRun lib simulationId start keys readings).Yields t
      (fun w => Holds path result w ∧ NoTx t w)
      (persistRun simulationId (withoutSeries result, path)) fun _ _ => True :=
    Yields.ensuring (Yields.tryCatch (yields_saveSuccess hrow hrun) fun _ => .raise _)
      (fun _ => .always) ((learns_calm (.perform rfl)).knowing lasting_holds)
  exact (hsave w ⟨hfile, hw⟩).mono fun r w hr =>
    ⟨⟨⟨result, hresult, rfl, hr.1.1⟩, hr.1.2⟩, hr.2⟩

theorem learns_runKey (delivered : Option Nat) {row : SimulationModel}
    {key : AllocationKeyModel F} (hrow : Creates simulationId start (asCreated row))
    (hkey : keys key) :
    Learns lib simulationId start keys readings t (runKey lib simulationId delivered row key)
      fun _ _ => True := by
  unfold runKey
  refine Yields.bind_knowing (learns_loadSource hrow hkey) fun loaded => ?_
  refine .given fun hloads => ?_
  cases loaded with
  | error terminal => exact .pure fun _ _ => trivial
  | ok raw =>
      have hloads := hloads raw rfl
      simp only
      split
      · exact (learns_saveFailure _).next fun _ => .pure fun _ _ => trivial
      · rename_i hsize
        refine Yields.bind_knowing (learns_solveRun delivered row _ raw) fun solved => ?_
        cases solved with
        | error terminal => exact .pure fun _ _ => trivial
        | ok solved =>
            exact (yields_persistRun hrow hloads hsize).next fun _ => .pure fun _ _ => trivial

theorem learns_process (delivered : Option Nat) :
    Learns lib simulationId start keys readings t (process lib simulationId delivered)
      fun _ _ => True := by
  unfold process
  refine Yields.bind_knowing learns_snapshot fun snapshot => ?_
  cases snapshot with
  | none => exact .pure fun _ _ => trivial
  | some row =>
      have hskip : ∀ {p : Act F B (Option SourceKey)}, Learns lib simulationId start keys readings
          t p (fun _ _ => True) → (oneRun lib simulationId start keys readings).Yields t
            (fun w => Read simulationId start (some row) w ∧ NoTx t w) p fun _ _ => True :=
        fun h => h.knowing lasting_read
      by_cases hstatus : row.status = .pending
      · simp only [hstatus, ne_eq, not_true_eq_false, if_false]
        split
        · exact hskip ((learns_saveFailure _).next fun _ => .pure fun _ _ => trivial)
        · rintro w ⟨hread, hw⟩
          obtain ⟨hrow, -⟩ := hread row rfl
          refine hskip (Yields.bind_knowing (learns_readCrmKey hrow) fun key => ?_) w ⟨hread, hw⟩
          refine .given fun hkey => ?_
          cases key with
          | none => exact (learns_saveFailure _).next fun _ => .pure fun _ _ => trivial
          | some key => exact learns_runKey delivered hrow (hkey key rfl)
      · simp only [hstatus, ne_eq, not_false_eq_true, if_true]
        exact .pure fun _ _ => trivial

theorem learns_handleMessage (delivered : Option Nat) :
    Learns lib simulationId start keys readings t (handleMessage lib simulationId delivered)
      fun _ _ => True := by
  intro w hw
  have hprocess : Learns lib simulationId start keys readings t
      ((process lib simulationId delivered).ensuring (await .stopHeartbeat)) fun _ _ => True :=
    Yields.ensuring (learns_process delivered) (fun _ => .always) (learns_calm (.perform rfl))
  refine Safe.andThen ((hprocess w hw).mono fun r w hr => ?_)
  have hreply : ∀ {p : Act F B Unit}, Learns lib simulationId start keys readings t p
      (fun _ _ => True) → (oneRun lib simulationId start keys readings).Safe t
        (fun r w => NoTx t w ∧ ∀ a, r = .ok a → True) p w := fun h => h w hr.1
  cases r with
  | ok key =>
      refine hreply (learns_calm (.bind (.perform rfl) fun _ => ?_))
      cases key with
      | none => trivial
      | some key => exact .perform rfl
  | error e =>
      cases e with
      | transientError text => exact hreply (learns_calm (.perform rfl))
      | cancelled => exact hreply (.raise _)
      | _ => exact hreply ((learns_saveFailure _).next fun _ => learns_calm (.perform rfl))

end Triples

end SimulationKey.OneRun
