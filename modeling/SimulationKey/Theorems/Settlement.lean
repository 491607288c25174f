import SimulationKey.Backend.Runs
import SimulationKey.Worker.Awaited

/-!
# No job is lost

An acked delivery leaves the simulation's committed row absent or with an
outcome, whatever fails and whatever else runs.

Every exit of `_process` that leads to an ack either saw the row absent or with
an outcome, or follows a claim: one that flipped the row and committed, or one
that found nothing to flip because a concurrent writer had committed first. What
such an exit has seen stays true (`Settled`), so the ack's precondition follows
along the program, whichever tasks run in between.
-/

namespace SimulationKey.Theorems.Settlement

open Kit Kit.Prog Kit.Discipline

variable {F B L α β : Type}

/-! ## The discipline -/

/-- The row was created, and is absent or has its outcome. -/
def Settled (db : LocalDb F) : Prop :=
  db.created = true ∧ ∀ row, db.row = some row → row.status ≠ .pending

structure Inv (w : World F B) : Prop where
  created : ∀ row, w.db.row = some row → w.db.created = true
  published : 0 < w.nats.stored → w.db.created = true
  tx : ∀ tx, w.db.tx = some tx → Settled w.db → ∀ row, tx.row = some row → row.status ≠ .pending
  acked : ∀ t, (t, .ack) ∈ w.nats.replies → Settled w.db

/-- What a task can rely on: nothing is unsettled, and its own transaction is
its own. -/
structure Rely (t : Nat) (w w' : World F B) : Prop where
  created : w.db.created = true → w'.db.created = true
  settled : Settled w.db → Settled w'.db
  tx : TxKept t w w'

/-- An ack needs the row settled, a publish needs it created, and no flush sets
it back to PENDING. -/
def Pre (_t : Nat) : Op F B → World F B → Prop
  | .ack, w => Settled w.db
  | .publish .., w => w.db.created = true
  | .updateRow _ values, _ => values.status ≠ some .pending
  | _, _ => True

theorem Rely.of_db {t : Nat} {w w' : World F B} (h : w'.db = w.db) : Rely t w w' :=
  { created := fun hcreated => h ▸ hcreated
    settled := fun hsettled => h ▸ hsettled
    tx := fun tx _ => by rw [h] }

/-- What a move keeps of the local database, its transaction included. -/
structure DbKept (db db' : LocalDb F) : Prop where
  created : db.created = true → db'.created = true
  settled : Settled db → Settled db'
  row : ∀ row, db'.row = some row → db'.created = true
  tx : ∀ tx, db'.tx = some tx → Settled db' → ∀ row, tx.row = some row → row.status ≠ .pending

theorem DbKept.drop {w : World F B} (h : Inv w) : DbKept w.db { w.db with tx := none } :=
  { created := id
    settled := id
    row := h.created
    tx := fun tx htx => by cases htx }

/-- Once the row is settled, a session sees no PENDING version of it. -/
theorem visible_of_settled {w : World F B} (h : Inv w) (hsettled : Settled w.db)
    {me : SessionId} {row : SimulationModel} (hfree : w.db.locked me = false)
    (hvisible : w.db.visible me = some row) : row.status ≠ .pending := by
  rcases LocalDb.free_cases hfree with ⟨-, -, hsame⟩ | ⟨tx, htx, -, -, hown⟩
  · exact hsettled.2 row (hsame ▸ hvisible)
  · exact h.tx tx htx hsettled row (hown ▸ hvisible)

theorem DbKept.of_move {w : World F B} {t : Nat} {o : Op F B} {db : LocalDb F} (h : Inv w)
    (hpre : Pre t o w) (hmove : DbMove t w.db o db) : DbKept w.db db := by
  have hstaged : ∀ {me : SessionId} {version : Option SimulationModel} {claimed : Bool},
      (Settled w.db → ∀ row, version = some row → row.status ≠ .pending) →
        DbKept w.db (w.db.stage me version claimed) := by
    intro me version claimed hversion
    refine ⟨id, id, h.created, fun tx htx hsettled => ?_⟩
    obtain rfl := Option.some.inj htx
    exact hversion hsettled
  cases hmove with
  | same => exact ⟨id, id, h.created, h.tx⟩
  | claim free visible pending =>
      exact hstaged fun hsettled => absurd pending (visible_of_settled h hsettled free visible)
  | @update s values row sets free visible =>
      refine hstaged fun hsettled version hversion => ?_
      obtain rfl := Option.some.inj hversion
      have hrow := visible_of_settled h hsettled free visible
      rw [SimulationModel.set_status]
      cases hstatus : values.status with
      | none => exact hrow
      | some status =>
          intro heq
          exact hpre (by rw [hstatus, show status = .pending from heq])
  | insert fresh free =>
      refine hstaged fun hsettled => ?_
      rw [hsettled.1] at fresh
      cases fresh
  | delete free visible => exact hstaged fun _ row hrow => by cases hrow
  | @tree s tx tree own =>
      refine ⟨id, id, h.created, fun tx' htx' hsettled => ?_⟩
      obtain rfl := Option.some.inj htx'
      exact h.tx tx ((LocalDb.own_eq_some _ _).mp own).1 hsettled
  | commit s =>
      cases hown : w.db.own ⟨t, s⟩ with
      | none =>
          rw [LocalDb.commit_of_not_own hown]
          exact ⟨id, id, h.created, h.tx⟩
      | some tx =>
          rw [LocalDb.commit_of_own hown]
          have htx := ((LocalDb.own_eq_some _ _).mp hown).1
          exact ⟨fun _ => rfl, fun hsettled => ⟨rfl, h.tx tx htx hsettled⟩, fun _ _ => rfl,
            fun tx htx => by cases htx⟩
  | rollback s =>
      cases hown : w.db.own ⟨t, s⟩ with
      | none =>
          rw [LocalDb.rollback_of_not_own hown]
          exact ⟨id, id, h.created, h.tx⟩
      | some tx =>
          rw [LocalDb.rollback_of_own hown]
          exact DbKept.drop h

/-- The invariant after a step, from what the step keeps of the database. -/
theorem Inv.of_kept {w w' : World F B} (h : Inv w) (hkept : DbKept w.db w'.db)
    (hnats : w'.nats = w.nats) : Inv w' :=
  { created := hkept.row
    published := fun hstored => hkept.created (h.published (hnats ▸ hstored))
    tx := hkept.tx
    acked := fun t hack => hkept.settled (h.acked t (hnats ▸ hack)) }

theorem abort_sound {t : Nat} {w : World F B} (h : Inv w) :
    Inv (w.abort t) ∧ ∀ t', t' ≠ t → Rely t' w (w.abort t) := by
  have hkept : DbKept w.db (w.abort t).db := by
    rcases World.abort_db t w with hsame | ⟨tx, -, -, hdrop⟩
    · rw [hsame]
      exact ⟨id, id, h.created, h.tx⟩
    · rw [hdrop]
      exact DbKept.drop h
  refine ⟨h.of_kept hkept rfl, fun t' hne => ⟨hkept.created, hkept.settled, fun tx howner => ?_⟩⟩
  exact World.abort_others (by rw [howner]; exact hne)

section Discipline

variable [PyFloat F] (lib : Libraries F B L) (simulationId : Nat)

theorem exec_sound {choice : Choice} {t : Nat} {o : Op F B} {w w' : World F B}
    {r : Except Exn o.Resp} (h : Inv w) (hpre : Pre t o w)
    (hexec : exec choice t o w = some (r, w')) : Inv w' ∧ ∀ t', t' ≠ t → Rely t' w w' := by
  have heffect := exec_effect hexec
  have hkept := DbKept.of_move h hpre heffect.toDb
  constructor
  · cases heffect with
    | none | db | audit | storage | files | finished => exact h.of_kept hkept rfl
    | nats hmove =>
        cases hmove with
        | publish => exact ⟨h.created, fun _ => hpre, h.tx, h.acked⟩
        | ack => exact ⟨h.created, h.published, h.tx, fun _ _ => hpre⟩
        | nak =>
            refine ⟨h.created, h.published, h.tx, fun t' hack => ?_⟩
            rcases List.mem_append.mp hack with hold | hnew
            · exact h.acked t' hold
            · simp at hnew
  · intro t' hne
    refine ⟨hkept.created, hkept.settled, fun tx howner => heffect.toDb.others ?_⟩
    rw [howner]
    exact hne

theorem enter_sound {e : Entry F B} {w w' : World F B} {p : Act F B Unit} (h : Inv w)
    (henter : enter lib simulationId e w = some (w', p)) : Inv w' ∧ ∀ t, Rely t w w' := by
  obtain ⟨started, rfl⟩ := enter_world henter
  exact ⟨h.of_kept ⟨id, id, h.created, h.tx⟩ rfl, fun _ => Rely.of_db rfl⟩

def settlement : Discipline (service lib simulationId) where
  inv := Inv
  rely := Rely
  unstarted := NoTx
  pre := Pre
  unstarted_rely := fun h hrely => h.kept hrely.tx
  rely_refl := fun _ _ => Rely.of_db rfl
  rely_trans := fun h h' =>
    ⟨h'.created ∘ h.created, h'.settled ∘ h.settled, h.tx.trans h'.tx⟩
  exec_sound := exec_sound
  enter_sound := enter_sound lib simulationId
  abort_sound := abort_sound
  event_sound := fun h => ⟨⟨h.created, h.published, h.tx, h.acked⟩, fun _ => Rely.of_db rfl⟩

end Discipline

/-! ## Assertions -/

section Assertions

variable {t : Nat}

/-- After a claim: the session holds an outcome for the row. -/
structure Claimed (t : Nat) (w : World F B) : Prop where
  created : w.db.created = true
  tx : ∃ tx, w.db.tx = some tx ∧ tx.owner = ⟨t, .own⟩ ∧
    ∀ row, tx.row = some row → row.status ≠ .pending

theorem Claimed.mine {w : World F B} (h : Claimed t w) : Mine t w := by
  refine ⟨h.created, fun tx htx _ => ?_⟩
  obtain ⟨tx', htx', howner, -⟩ := h.tx
  obtain rfl := Option.some.inj (htx'.symm.trans htx)
  exact howner

theorem settled_rollback {db : LocalDb F} (h : Settled db) (me : SessionId) :
    Settled (db.rollback me) := by
  cases hown : db.own me with
  | none => rwa [LocalDb.rollback_of_not_own hown]
  | some tx =>
      rw [LocalDb.rollback_of_own hown]
      exact h

/-! ## Operations by precondition -/

/-- An operation that changes neither the local database nor what was acked. -/
def quiet : Op F B → Bool
  | .ack | .publish .. => false
  | o => !o.writesDb

theorem quiet_pre {o : Op F B} (ho : quiet o = true) (w : World F B) : Pre t o w := by
  cases o <;> trivial

theorem quiet_writesDb {o : Op F B} (ho : quiet o = true) : o.writesDb = false := by
  cases o <;> first | rfl | cases ho

/-- The operations between a claim and its commit. -/
def underClaim : Op F B → Bool
  | .insertTree .. => true
  | o => quiet o

theorem underClaim_pre {o : Op F B} (ho : underClaim o = true) (w : World F B) : Pre t o w := by
  cases o <;> trivial

/-- An operation without a precondition. -/
def harmless : Op F B → Bool
  | .ack | .publish .. => false
  | .updateRow _ values => values.status ≠ some .pending
  | _ => true

theorem harmless_pre {o : Op F B} (ho : harmless o = true) (w : World F B) : Pre t o w := by
  cases o
  case updateRow s values => exact of_decide_eq_true (p := values.status ≠ some .pending) ho
  all_goals trivial

theorem closes_pre {o : Op F B} (ho : o.closes = true) (w : World F B) : Pre t o w := by
  cases o <;> trivial

/-- An operation without a precondition once the row is created. -/
def afterCreation : Op F B → Bool
  | .publish .. => true
  | o => harmless o

theorem afterCreation_of_harmless {o : Op F B} (ho : harmless o = true) :
    afterCreation o = true := by
  cases o <;> first | exact ho | rfl

theorem quiet_announce (simulationId idCommunity : Nat) (payload : AuditPayload)
    (hint : SimulationStatus) :
    (announce simulationId idCommunity payload hint : Act F B Unit).AllOps
      fun o => quiet o = true :=
  .bind (.ensuring (.bind (.perform rfl) fun _ => .perform rfl) (.perform rfl))
    fun _ => .perform rfl

theorem quiet_readCrmKey (idKey idCommunity : Nat) :
    (readCrmKey idKey idCommunity : Act F B _).AllOps fun o => quiet o = true :=
  .ensuring (.perform rfl) (.perform rfl)

theorem harmless_markFailedToQueue (id : Nat) (reason : String) :
    (markFailedToQueue id reason : Act F B Unit).AllOps fun o => harmless o = true := by
  refine .bind (.ensuring (.bind (.perform rfl) fun row => ?_) (.perform rfl)) fun marked => ?_
  · cases row with
    | none => trivial
    | some row =>
        refine .bind (.perform ?_) fun _ => .bind (.perform rfl) fun _ => trivial
        refine decide_eq_true fun hpending => ?_
        unfold changedBy at hpending
        split_ifs at hpending <;> cases hpending
  · cases marked with
    | none => trivial
    | some idCommunity =>
        exact .ensuring (.bind (.perform rfl) fun _ => .perform rfl) (.perform rfl)

theorem afterCreation_publishOrMark (id : Nat) {cleanup : Act F B Unit}
    (hcleanup : cleanup.AllOps fun o => harmless o = true) :
    (publishOrMark id cleanup).AllOps fun o => afterCreation o = true := by
  refine .tryCatch (.perform rfl) fun e => ?_
  by_cases he : e.isException = true
  · simp only [he, if_true]
    exact AllOps.mono (.bind (harmless_markFailedToQueue id e.text) fun _ =>
      .bind hcleanup fun _ => trivial) fun _ => afterCreation_of_harmless
  · simp only [he]
    trivial

theorem harmless_of_records {o : Op F B} (h : o.records = true) : harmless o = true := by
  cases o <;> first | rfl | cases h

end Assertions

/-! ## Stability -/

section Triples

variable [PyFloat F] {lib : Libraries F B L} {simulationId : Nat} {t : Nat}

theorem base_stable : (settlement lib simulationId).Stable t (Base t) :=
  fun h hrely => h.kept hrely.created hrely.tx

theorem mine_stable : (settlement lib simulationId).Stable t (Mine t) :=
  fun h hrely => h.kept hrely.created hrely.tx

theorem claimed_stable : (settlement lib simulationId).Stable t (Claimed t) := by
  intro w w' h hrely
  obtain ⟨tx, htx, howner, houtcome⟩ := h.tx
  exact ⟨hrely.created h.created, tx, (hrely.tx tx (by rw [howner])).mp htx, howner, houtcome⟩

/-- A task keeps what is settled, by its own operations too. -/
theorem settled_exec {choice : Choice} {o : Op F B} {w w' : World F B} {r : Except Exn o.Resp}
    (h : Inv w) (hpre : Pre t o w) (hsettled : Settled w.db)
    (hexec : exec choice t o w = some (r, w')) : Settled w'.db :=
  (DbKept.of_move h hpre (exec_db hexec)).settled hsettled

theorem quiet_exec {choice : Choice} {o : Op F B} {w w' : World F B} {r : Except Exn o.Resp}
    (ho : quiet o = true) (hexec : exec choice t o w = some (r, w')) : w'.db = w.db :=
  (exec_db hexec).eq_of_not_writesDb (quiet_writesDb ho)

/-! ## Programs that settle -/

variable (lib simulationId t) in
/-- From between two sessions to between two sessions, the row settled when the
program ends with a value in `P`. -/
def Settles (p : Act F B α) (P : α → Prop) : Prop :=
  ∀ w, Base t w → (settlement lib simulationId).Safe t
    (fun r w => Base t w ∧ ∀ a, r = .ok a → P a → Settled w.db) p w

variable {p : Act F B α} {P P' : α → Prop} {Q : β → Prop}

theorem Settles.mono (h : Settles lib simulationId t p P) (hP : ∀ a, P' a → P a) :
    Settles lib simulationId t p P' := fun w hw =>
  (h w hw).mono fun _ _ hr => ⟨hr.1, fun a ha hPa => hr.2 a ha (hP a hPa)⟩

theorem settles_pure {a : α} (hP : ¬ P a) : Settles lib simulationId t (pure a) P := by
  intro w hw
  refine ⟨hw, fun a' ha' hPa => ?_⟩
  obtain rfl := Except.ok.inj ha'
  exact absurd hPa hP

theorem settles_raise (e : Exn) : Settles lib simulationId t (raise e : Act F B α) P :=
  fun _ hw => ⟨hw, fun _ ha => by cases ha⟩

/-- What is settled stays so through a program. -/
theorem Settles.after {w : World F B} (h : Settles lib simulationId t p P) (hw : Base t w)
    (hsettled : Settled w.db) :
    (settlement lib simulationId).Safe t
      (fun r w => Settled w.db ∧ Base t w ∧ ∀ a, r = .ok a → P a → Settled w.db) p w :=
  Safe.frame (d := settlement lib simulationId) (A := fun w => Settled w.db)
    (fun h hrely => hrely.settled h)
    (fun hinv hpre hA hexec => settled_exec hinv hpre hA hexec) hsettled (h w hw)

/-- The rule of sequencing: the second program need not settle what the first
one has. -/
theorem Settles.bind {f : α → Act F B β} (hp : Settles lib simulationId t p P)
    (hf : ∀ a, Settles lib simulationId t (f a) fun b => Q b ∧ ¬ P a) :
    Settles lib simulationId t (p >>= f) Q := by
  intro w hw
  refine Safe.bind ((hp w hw).mono fun r w hr => ?_)
  cases r with
  | error e => exact ⟨hr.1, fun b hb => by cases hb⟩
  | ok a =>
      by_cases hP : P a
      · refine ((hf a).after hr.1 (hr.2 a rfl hP)).mono fun r w hr => ?_
        exact ⟨hr.2.1, fun b _ _ => hr.1⟩
      · exact (hf a w hr.1).mono fun r w hr => ⟨hr.1, fun b hb hQ => hr.2 b hb ⟨hQ, hP⟩⟩

theorem Settles.tryCatch {handler : Exn → Act F B α} (hp : Settles lib simulationId t p P)
    (hhandler : ∀ e, Settles lib simulationId t (handler e) P) :
    Settles lib simulationId t (p.tryCatch handler) P := by
  intro w hw
  refine Safe.tryCatch ((hp w hw).mono fun r w hr => ?_)
  cases r with
  | ok a => exact hr
  | error e => exact hhandler e w hr.1

theorem Settles.ensuring {cleanup : Act F B Unit} (hp : Settles lib simulationId t p P)
    (hcleanup : Settles lib simulationId t cleanup fun _ => False) :
    Settles lib simulationId t (p.ensuring cleanup) P := by
  intro w hw
  refine Safe.ensuring ((hp w hw).mono fun outcome w hr => ?_)
  by_cases hP : ∃ a, outcome = .ok a ∧ P a
  · obtain ⟨a, ha, hPa⟩ := hP
    refine (hcleanup.after hr.1 (hr.2 a ha hPa)).mono fun r w hafter => ?_
    cases r with
    | ok u => exact ⟨hafter.2.1, fun _ _ _ => hafter.1⟩
    | error e => exact ⟨hafter.2.1, fun _ h => by cases h⟩
  · refine (hcleanup w hr.1).mono fun r w hafter => ?_
    cases r with
    | ok u => exact ⟨hafter.1, fun a ha hPa => absurd ⟨a, ha, hPa⟩ hP⟩
    | error e => exact ⟨hafter.1, fun _ h => by cases h⟩

/-- Programs of quiet operations settle nothing and disturb nothing. -/
theorem settles_quiet (hops : p.AllOps fun o => quiet o = true) :
    Settles lib simulationId t p fun _ => False := by
  intro w hw
  refine (Safe.of_allOps base_stable (hops.mono fun o ho w hinv hbase => ?_) hw).mono
    fun r w hbase => ⟨hbase, fun _ _ h => h.elim⟩
  exact ⟨quiet_pre (t := t) ho w, fun choice r w' hexec => hbase.of_db (quiet_exec ho hexec)⟩

theorem settles_await {o : Op F B} (ho : quiet o = true) :
    Settles lib simulationId t (await o) fun _ => False :=
  settles_quiet (.perform ho)

/-! ## Sessions and claims -/

theorem settles_session {body : Act F B α}
    (hbody : ∀ w, Base t w → (settlement lib simulationId).Safe t
      (fun r w => Mine t w ∧ ∀ a, r = .ok a → P a → Settled w.db) body w) :
    Settles lib simulationId t (withLocalSession .own body) P := by
  intro w hw
  refine Safe.ensuring ((hbody w hw).mono fun outcome w hr => ?_)
  refine safe_perform (d := settlement lib simulationId)
    (A := fun w => Mine t w ∧ ∀ a, outcome = .ok a → P a → Settled w.db) ?_ hr
    (fun _ _ _ => trivial) fun choice r w' w'' hinv hA hexec => ?_
  · exact fun hA hrely => ⟨mine_stable hA.1 hrely, fun a ha hP => hrely.settled (hA.2 a ha hP)⟩
  · obtain rfl := exec_closeLocal hexec
    cases r with
    | ok u => exact ⟨hA.1.close, fun a ha hP => settled_rollback (hA.2 a ha hP) _⟩
    | error e => exact ⟨hA.1.close, fun _ h => by cases h⟩

/-- A read between sessions sees the committed row. -/
theorem exec_getRow {choice : Choice} {w w' : World F B} {s : SessionKind}
    {row : Option SimulationModel} (hbase : Base t w)
    (hexec : exec choice t (.getRow s) w = some (.ok row, w')) : row = w.db.row ∧ w' = w := by
  obtain ⟨hrow, rfl⟩ := Prod.mk.inj (Option.some.inj (exec_ok rfl hexec))
  rw [hbase.noTx.visible s] at hrow
  exact ⟨(Except.ok.inj hrow).symm, rfl⟩

theorem settles_snapshot : Settles lib simulationId t (snapshotSimulation : Act F B _)
    fun snapshot => ∀ row, snapshot = some row → row.status ≠ .pending := by
  refine settles_session fun w hw => ?_
  refine safe_perform base_stable hw (fun _ _ _ => trivial) fun choice r w' w'' _ hbase hexec => ?_
  cases r with
  | error e =>
      have hdb := (exec_db hexec).eq_of_not_writesDb rfl
      exact ⟨(hbase.of_db hdb).mine, fun _ h => by cases h⟩
  | ok row =>
      obtain ⟨rfl, rfl⟩ := exec_getRow hbase hexec
      refine ⟨hbase.mine, fun snapshot hsnapshot houtcome => ⟨hbase.created, ?_⟩⟩
      obtain rfl := Except.ok.inj hsnapshot
      exact houtcome

/-- A claim that is told of an exception may still have staged its version. -/
theorem mine_of_claim {values : RowValues} {w w' : World F B} {choice : Choice}
    {r : Except Exn Nat} (h : Base t w)
    (hexec : exec choice t (.claim .own values) w = some (r, w')) : Mine t w' := by
  have hmove := exec_db hexec
  generalize hafter : w'.db = db at hmove
  cases hmove with
  | same => exact (h.of_db hafter).mine
  | claim free visible pending =>
      refine ⟨by rw [hafter]; exact h.created, fun tx htx _ => ?_⟩
      rw [hafter] at htx
      obtain rfl := Option.some.inj htx
      rfl

/-- A claim that reports its row count: no row to flip means that the row is
settled, and a flipped one is held with its outcome. -/
theorem settled_or_claimed {values : RowValues} {w w' : World F B} {choice : Choice} {n : Nat}
    (h : Base t w) (hvalues : ∃ status, values.status = some status ∧ status ≠ .pending)
    (hexec : exec choice t (.claim .own values) w = some (.ok n, w')) :
    (n = 0 → Base t w' ∧ Settled w'.db) ∧ (n ≠ 0 → Claimed t w') := by
  obtain ⟨x, hx, heq⟩ := Option.map_eq_some_iff.mp (exec_ok rfl hexec)
  obtain ⟨hr, rfl⟩ := Prod.mk.inj heq
  rcases claim_cases (r := x.1) hx with ⟨row, hok, -, -, -, hdb⟩ | ⟨hok, hdb, hnothing⟩
  · obtain rfl := Except.ok.inj (hr.symm.trans hok)
    refine ⟨fun h => absurd h (by decide), fun _ => ⟨?_, ?_⟩⟩
    · rw [hdb]
      exact h.created
    · rw [hdb]
      refine ⟨_, rfl, rfl, fun row' hrow' => ?_⟩
      obtain rfl := Option.some.inj hrow'
      obtain ⟨status, hstatus, houtcome⟩ := hvalues
      simpa [hstatus] using houtcome
  · obtain rfl := Except.ok.inj (hr.symm.trans hok)
    refine ⟨fun _ => ⟨h.of_db hdb, ?_⟩, fun h => absurd rfl h⟩
    rw [hdb]
    refine ⟨h.created, fun row hrow => ?_⟩
    rcases hnothing with ⟨-, hcommitted⟩ | ⟨-, hvisible⟩
    · -- another session held the lock of a row with its outcome
      exact hcommitted row hrow
    · exact hvisible row ((h.noTx.visible .own).trans hrow)

/-- Whatever a commit reports, the task's transaction is its session's. -/
theorem Claimed.commit {w w' : World F B} {choice : Choice} {r : Except Exn Unit}
    (h : Claimed t w) (hexec : exec choice t (.commitLocal .own) w = some (r, w')) :
    Mine t w' ∧ (r = .ok () → Settled w'.db) := by
  obtain ⟨tx, htx, howner, houtcome⟩ := h.tx
  have hown : w.db.own ⟨t, .own⟩ = some tx := (LocalDb.own_eq_some _ _).mpr ⟨htx, howner⟩
  constructor
  · have hmove := exec_db hexec
    generalize hafter : w'.db = db at hmove
    cases hmove with
    | same => exact ⟨by rw [hafter]; exact h.created, fun tx' htx' ht =>
        h.mine.owner tx' (hafter ▸ htx') ht⟩
    | commit =>
        rw [LocalDb.commit_of_own hown] at hafter
        exact ⟨by rw [hafter], fun tx' htx' => by rw [hafter] at htx'; cases htx'⟩
  · rintro rfl
    obtain ⟨-, rfl⟩ := Prod.mk.inj (Option.some.inj (exec_ok rfl hexec))
    simp only [LocalDb.commit_of_own hown]
    exact ⟨rfl, houtcome⟩

theorem Claimed.exec {choice : Choice} {o : Op F B} {w w' : World F B} {r : Except Exn o.Resp}
    (h : Claimed t w) (ho : underClaim o = true)
    (hexec : exec choice t o w = some (r, w')) : Claimed t w' := by
  have hmove := exec_db hexec
  generalize hafter : w'.db = db at hmove
  have hsame : db = w.db → Claimed t w' := by
    rintro rfl
    exact ⟨by rw [hafter]; exact h.created, by rw [hafter]; exact h.tx⟩
  cases hmove with
  | same => exact hsame rfl
  | tree own =>
      obtain ⟨tx, htx, howner, houtcome⟩ := h.tx
      obtain rfl := Option.some.inj (htx.symm.trans ((LocalDb.own_eq_some _ _).mp own).1)
      refine ⟨by rw [hafter]; exact h.created, ?_⟩
      rw [hafter]
      exact ⟨_, rfl, howner, houtcome⟩
  | claim | update | insert | delete | commit | rollback => cases ho

theorem settles_claimAndCommit {values : SimulationModel → RowValues}
    {rest : SimulationModel → Act F B Unit}
    (hvalues : ∀ row, ∃ status, (values row).status = some status ∧ status ≠ .pending)
    (hrest : ∀ row, (rest row).AllOps fun o => underClaim o = true) :
    Settles lib simulationId t (claimAndCommit values rest) fun _ => True := by
  refine settles_session fun w hw => Safe.bind ?_
  refine safe_perform base_stable hw (fun _ _ _ => trivial) fun choice r w' w'' _ hbase hexec => ?_
  cases r with
  | error e =>
      have hdb := (exec_db hexec).eq_of_not_writesDb rfl
      exact ⟨(hbase.of_db hdb).mine, fun _ h => by cases h⟩
  | ok row =>
      obtain ⟨rfl, rfl⟩ := exec_getRow hbase hexec
      cases hrow : w''.db.row with
      | none =>
          -- the row was deleted
          refine ⟨hbase.mine, fun _ _ _ => ⟨hbase.created, fun row h => ?_⟩⟩
          rw [hrow] at h
          cases h
      | some simulation =>
          refine Safe.bind (safe_perform base_stable hbase (fun _ _ _ => trivial)
            fun choice r w₁ w₂ _ hbase hexec => ?_)
          cases r with
          | error e => exact ⟨mine_of_claim hbase hexec, fun _ h => by cases h⟩
          | ok n =>
              obtain ⟨hnone, hflipped⟩ := settled_or_claimed hbase (hvalues simulation) hexec
              by_cases hn : n = 0
              · simp only [hn, if_true]
                exact ⟨(hnone hn).1.mine, fun _ _ _ => (hnone hn).2⟩
              · simp only [hn, if_false]
                refine Safe.bind ((Safe.of_allOps claimed_stable
                  ((hrest simulation).mono fun o ho w _ hclaimed => ⟨underClaim_pre (t := t) ho w,
                    fun choice r w' hexec => hclaimed.exec ho hexec⟩)
                  (hflipped hn)).mono fun r w hclaimed => ?_)
                cases r with
                | error e => exact ⟨hclaimed.mine, fun _ h => by cases h⟩
                | ok u =>
                    refine Safe.bind (safe_perform claimed_stable hclaimed (fun _ _ _ => trivial)
                      fun choice r w₃ w₄ _ hclaimed hexec => ?_)
                    obtain ⟨hmine, hcommitted⟩ := hclaimed.commit hexec
                    cases r with
                    | error e => exact ⟨hmine, fun _ h => by cases h⟩
                    | ok u => exact ⟨hmine, fun _ _ _ => hcommitted rfl⟩

/-! ## The two writers -/

theorem settles_committed {committed : Act F B (Option Nat)} {payload : AuditPayload}
    {hint : SimulationStatus} {id : Nat}
    (hcommitted : Settles lib simulationId t committed fun _ => True) :
    Settles lib simulationId t
      (committed >>= fun
        | none => pure ()
        | some idCommunity => announce id idCommunity payload hint) fun _ => True := by
  refine hcommitted.bind fun c => ?_
  cases c with
  | none => exact settles_pure fun h => h.2 trivial
  | some idCommunity =>
      exact (settles_quiet (quiet_announce id idCommunity payload hint)).mono fun _ h =>
        h.2 trivial

theorem settles_saveFailure (id : Nat) (errorMessage : String) :
    Settles lib simulationId t (saveFailure id errorMessage) fun _ => True :=
  settles_committed (settles_claimAndCommit (fun _ => ⟨.failed, rfl, by decide⟩)
    fun _ => trivial)

theorem settles_saveSuccess (id : Nat) (result : KeySimResult F) (path : Nat) :
    Settles lib simulationId t (saveSuccess id result path) fun _ => True :=
  settles_committed (settles_claimAndCommit (fun _ => ⟨.success, rfl, by decide⟩)
    fun _ => .bind (.perform rfl) fun _ => .perform rfl)

/-! ## The steps of a run -/

theorem settles_settle (id : Nat) (errorMessage : String) (storageKey : Option SourceKey)
    {P : Except (Option SourceKey) α → Prop} :
    Settles lib simulationId t (settle id errorMessage storageKey) P :=
  ((settles_saveFailure id errorMessage).bind fun _ => settles_pure fun h => h.2 trivial).mono
    fun _ _ => trivial

/-- A step that found the run's end, and settled it. -/
def Ended (r : Except (Option SourceKey) α) : Prop := ∃ storageKey, r = .error storageKey

theorem not_ended (a : α) : ¬ (Ended (.ok a) ∧ ¬ False) := fun ⟨⟨_, h⟩, _⟩ => by cases h

theorem Settles.orTransient {what : String} (h : Settles lib simulationId t p P) :
    Settles lib simulationId t (orTransient what p) P :=
  h.tryCatch fun _ => settles_raise _

theorem settles_afterSolverCrash (delivered : Option Nat) (text : String)
    (storageKey : Option SourceKey) {P : Except (Option SourceKey) α → Prop} :
    Settles lib simulationId t (afterSolverCrash simulationId delivered text storageKey) P := by
  unfold afterSolverCrash
  cases delivered with
  | none => exact settles_settle _ _ _
  | some n =>
      by_cases hretry : n < maxSolverCrashDeliveries
      · simp only [hretry, if_true]
        exact settles_raise _
      · simp only [hretry, if_false]
        exact settles_settle _ _ _

theorem settles_downloadSource (storageKey : SourceKey) :
    Settles lib simulationId t (downloadSource simulationId storageKey : Act F B _) Ended := by
  refine Settles.tryCatch ((settles_await rfl).bind fun content =>
    settles_pure (not_ended content)) fun e => ?_
  cases e with
  | objectNotFound text => exact settles_settle _ _ _
  | _ => exact settles_raise _

theorem settles_loadFromFile (snapshot : SimulationModel) (consumerNames : List String) :
    Settles lib simulationId t (loadFromFile lib simulationId snapshot consumerNames) Ended := by
  unfold loadFromFile
  split
  · refine (settles_downloadSource _).bind fun downloaded => ?_
    cases downloaded with
    | error terminal => exact settles_pure fun h => h.2 ⟨terminal, rfl⟩
    | ok content =>
        simp only
        split
        · exact settles_settle _ _ _
        · refine settles_pure fun h => ?_
          obtain ⟨⟨terminal, hterminal⟩, -⟩ := h
          cases hterminal
  · exact settles_settle _ _ _

theorem quiet_readPeriod (idCommunity op periodStart periodEnd : Nat)
    (consumerNames : List String) (iterations : Nat) :
    (readPeriod idCommunity op periodStart periodEnd consumerNames iterations :
      Act F B _).AllOps fun o => quiet o = true := by
  refine .ensuring (.bind (.perform rfl) fun summary => ?_) (.perform rfl)
  by_cases hok : (evaluate summary consumerNames iterations).ok = true
  · simp only [hok, if_true]
    exact .bind (.perform rfl) fun _ => trivial
  · simp only [hok, Bool.false_eq_true, if_false]
    trivial

theorem settles_loadFromCrm (snapshot : SimulationModel) (consumerNames : List String)
    (iterations : Nat) :
    Settles lib simulationId t
      (loadFromCrm simulationId snapshot consumerNames iterations : Act F B _) Ended := by
  unfold loadFromCrm
  split
  · refine (settles_quiet (quiet_readPeriod _ _ _ _ _ _)).orTransient.bind fun period => ?_
    cases loadRows period.1 period.2 with
    | error failure => exact settles_settle _ _ _
    | ok raw => exact settles_pure (not_ended raw)
  · exact settles_settle _ _ _

theorem settles_loadSource (snapshot : SimulationModel) (keyInput : SimulationKeyInput F) :
    Settles lib simulationId t (loadSource lib simulationId snapshot keyInput) Ended := by
  unfold loadSource
  cases snapshot.source with
  | crm => exact settles_loadFromCrm _ _ _
  | file => exact settles_loadFromFile _ _

theorem settles_runSolver (keyInput : SimulationKeyInput F) (raw : SimulationRawData F) :
    Settles lib simulationId t (runSolver keyInput raw : Act F B _) fun _ => False := by
  refine (settles_await rfl).tryCatch fun e => ?_
  cases e <;> exact settles_raise _

theorem settles_solveRun (delivered : Option Nat) (snapshot : SimulationModel)
    (keyInput : SimulationKeyInput F) (raw : SimulationRawData F) :
    Settles lib simulationId t
      (solveRun simulationId delivered snapshot keyInput raw : Act F B _) Ended := by
  refine ((settles_runSolver keyInput raw).bind fun solved =>
    settles_pure (not_ended solved)).tryCatch fun e => ?_
  cases e with
  | solverCrash text => exact settles_afterSolverCrash _ _ _
  | cancelled => exact settles_raise _
  | _ => exact settles_settle _ _ _

theorem settles_persistRun (solved : KeySimResult F × Nat) :
    Settles lib simulationId t (persistRun simulationId solved : Act F B _) fun _ => True :=
  (settles_saveSuccess _ _ _).orTransient.ensuring (settles_await rfl)

theorem settles_runKey (delivered : Option Nat) (snapshot : SimulationModel)
    (key : AllocationKeyModel F) :
    Settles lib simulationId t (runKey lib simulationId delivered snapshot key) fun _ => True := by
  have hsaved : ∀ {saved : Act F B Unit} {storageKey : Option SourceKey} {R : Prop},
      Settles lib simulationId t saved (fun _ => True) →
        Settles lib simulationId t (saved >>= fun _ => pure storageKey) fun _ => True ∧ R :=
    fun hsaved => hsaved.bind fun _ => settles_pure fun h => h.2 trivial
  refine (settles_loadSource snapshot _).bind fun loaded => ?_
  cases loaded with
  | error terminal => exact settles_pure fun h => h.2 ⟨terminal, rfl⟩
  | ok raw =>
      simp only
      split
      · exact hsaved (settles_saveFailure _ _)
      · refine (settles_solveRun delivered snapshot _ raw).bind fun solved => ?_
        cases solved with
        | error terminal => exact settles_pure fun h => h.2 ⟨terminal, rfl⟩
        | ok solved => exact (hsaved (settles_persistRun solved)).mono fun _ h => ⟨trivial, h⟩

/-- Every exit of `_process` with a value leaves the row settled. -/
theorem settles_process (delivered : Option Nat) :
    Settles lib simulationId t (process lib simulationId delivered) fun _ => True := by
  refine settles_snapshot.bind fun snapshot => ?_
  cases snapshot with
  | none => exact settles_pure fun h => h.2 fun row hrow => by cases hrow
  | some snapshot =>
      by_cases hstatus : snapshot.status = .pending
      · simp only [hstatus, ne_eq, not_true_eq_false, if_false]
        split
        · exact (settles_saveFailure _ _).bind fun _ => settles_pure fun h => h.2 trivial
        · refine (settles_quiet (quiet_readCrmKey _ _)).orTransient.bind
            fun key => ?_
          cases key with
          | none => exact (settles_saveFailure _ _).bind fun _ => settles_pure fun h => h.2 trivial
          | some key => exact (settles_runKey delivered snapshot key).mono fun _ _ => trivial
      · simp only [hstatus, ne_eq, not_false_eq_true, if_true]
        refine settles_pure fun h => h.2 fun row hrow => ?_
        obtain rfl := Option.some.inj hrow
        exact hstatus

/-! ## The entries -/

theorem polite_harmless (hops : p.AllOps fun o => harmless o = true) :
    (settlement lib simulationId).Polite t p :=
  .of_allOps (hops.mono fun _ ho w _ => harmless_pre (t := t) ho w)

theorem polite_await {o : Op F B} (ho : harmless o = true) :
    (settlement lib simulationId).Polite t (await o) :=
  polite_harmless (.perform ho)

/-- The ack, with the row settled. -/
theorem safe_ack {w : World F B} (hsettled : Settled w.db) :
    (settlement lib simulationId).Safe t (fun _ _ => True) (await .ack) w :=
  safe_perform (d := settlement lib simulationId) (A := fun w => Settled w.db)
    (fun h hrely => hrely.settled h) hsettled (fun _ _ h => h) fun _ _ _ _ _ _ _ => trivial

/-- The catch-all. -/
theorem safe_unhandled {w : World F B} (hw : Base t w) :
    (settlement lib simulationId).Safe t (fun _ _ => True)
      (saveFailure simulationId "unhandled_worker_error" >>= fun _ => await .ack) w := by
  refine Safe.bind ((settles_saveFailure _ _ w hw).mono fun r w hsaved => ?_)
  cases r with
  | error e => trivial
  | ok u => exact safe_ack (hsaved.2 u rfl trivial)

theorem safe_handleMessage {w : World F B} (hw : Base t w) (delivered : Option Nat) :
    (settlement lib simulationId).Safe t (fun _ _ => True)
      (handleMessage lib simulationId delivered) w := by
  refine Safe.andThen ((((settles_process delivered).ensuring
    (settles_await rfl)) w hw).mono fun r w hr => ?_)
  cases r with
  | ok storageKey =>
      refine Safe.bind ((safe_ack (hr.2 storageKey rfl trivial)).mono fun r w _ => ?_)
      cases r with
      | error e => trivial
      | ok u =>
          cases storageKey with
          | none => trivial
          | some key => exact polite_await rfl _
  | error e =>
      cases e with
      | cancelled => trivial
      | transientError text => exact polite_await rfl _
      | _ => exact safe_unhandled hr.1

/-- An insertion that has committed. -/
theorem safe_createSimulation {w : World F B} (model : SimulationModel) :
    (settlement lib simulationId).Safe t (fun r w => ∀ id, r = .ok id → w.db.created = true)
      (createSimulation model) w := by
  refine Safe.bind (safe_perform (d := settlement lib simulationId) (A := fun _ => True)
    (fun _ _ => trivial) trivial (fun _ _ _ => trivial) fun choice r w w' _ _ hexec => ?_)
  cases r with
  | error e => exact fun _ h => by cases h
  | ok id =>
      have hstaged : ∃ tx, w'.db.tx = some tx ∧ tx.owner = ⟨t, .request⟩ := by
        obtain ⟨x, hx, heq⟩ := Option.map_eq_some_iff.mp (exec_ok rfl hexec)
        obtain ⟨hr, rfl⟩ := Prod.mk.inj heq
        unfold LocalDb.insert at hx
        split_ifs at hx
        · rw [← Option.some.inj hx] at hr
          cases hr
        · rw [← Option.some.inj hx]
          exact ⟨_, rfl, rfl⟩
        · rw [← Option.some.inj hx] at hr
          cases hr
      refine Safe.bind (safe_perform (d := settlement lib simulationId)
        (A := fun w => ∃ tx, w.db.tx = some tx ∧ tx.owner = ⟨t, .request⟩) ?_ hstaged
        (fun _ _ _ => trivial) fun choice r w w' _ hstaged hexec => ?_)
      · rintro w w' ⟨tx, htx, howner⟩ hrely
        exact ⟨tx, (hrely.tx tx (by rw [howner])).mp htx, howner⟩
      · cases r with
        | error e => exact fun _ h => by cases h
        | ok u =>
            obtain ⟨tx, htx, howner⟩ := hstaged
            obtain ⟨-, rfl⟩ := Prod.mk.inj (Option.some.inj (exec_ok rfl hexec))
            intro _ _
            simp only [LocalDb.commit_of_own ((LocalDb.own_eq_some _ _).mpr ⟨htx, howner⟩)]

theorem safe_afterCreation {w : World F B} (hcreated : w.db.created = true)
    (hops : p.AllOps fun o => afterCreation o = true) :
    (settlement lib simulationId).Safe t (fun _ _ => True) p w := by
  refine (Safe.of_allOps (d := settlement lib simulationId) (A := fun w => w.db.created = true)
    (fun h hrely => hrely.created h) (hops.mono fun o ho w hinv hcreated => ?_) hcreated).mono
    fun _ _ _ => trivial
  have hpre : Pre t o w := by
    cases o
    case publish subject event => exact hcreated
    all_goals
      refine harmless_pre ?_ w
      exact ho
  exact ⟨hpre, fun choice r w' hexec =>
    (DbKept.of_move hinv hpre (exec_db hexec)).created hcreated⟩

/-! ## Requests -/

/-- What follows a creation is safe because the row is created. -/
theorem polite_created {create : Act F B Nat} {rest : Nat → Act F B α}
    (hcreate : ∀ w, (settlement lib simulationId).Safe t
      (fun r w => ∀ id, r = .ok id → w.db.created = true) create w)
    (hrest : ∀ id, (rest id).AllOps fun o => afterCreation o = true) :
    (settlement lib simulationId).Polite t (create >>= rest) := by
  refine fun w => Safe.bind ((hcreate w).mono fun r w hr => ?_)
  cases r with
  | error e => trivial
  | ok id => exact safe_afterCreation (hr id rfl) (hrest id)

/-- The creation of a file's row: an exception deletes the upload and goes on. -/
theorem safe_createOrDelete {w : World F B} (model : SimulationModel) (storageKey : SourceKey) :
    (settlement lib simulationId).Safe t (fun r w => ∀ id, r = .ok id → w.db.created = true)
      (onException (createSimulation model) fun e => do
        await (.delete (some (.source storageKey)))
        raise e) w := by
  refine Safe.tryCatch ((safe_createSimulation model).mono fun r w hr => ?_)
  cases r with
  | ok id => exact hr
  | error e =>
      by_cases he : e.isException = true
      · simp only [he, if_true]
        refine Safe.bind ((polite_await rfl _).mono fun r w _ => ?_)
        cases r with
        | ok u => exact fun _ h => by cases h
        | error e => exact fun _ h => by cases h
      · simp only [he]
        exact fun _ h => by cases h

theorem polite_readWithinCap (file : UploadFile B) :
    (settlement lib simulationId).Polite t (readWithinCap lib file) := by
  refine .bind (polite_await rfl) fun content => ?_
  split
  · exact fun _ => trivial
  · split
    · exact fun _ => trivial
    · exact fun _ => trivial

theorem polite_startSimulation (newId : Nat) (uuid : Uuid) (req : SimulateRequest)
    (file : UploadFile B) (community : Nat) :
    (settlement lib simulationId).Polite t (startSimulation lib newId uuid req file community) := by
  refine .bind (polite_await rfl) fun key => ?_
  cases key with
  | none => exact fun _ => trivial
  | some key =>
      refine .bind (polite_readWithinCap file) fun content => ?_
      by_cases hsize : uploadTooLarge lib key content (uploadName file) = true
      · simp only [hsize, if_true]
        exact fun _ => trivial
      · simp only [hsize]
        refine .bind (polite_harmless (.tryCatch (.perform rfl) fun e => ?_)) fun _ => ?_
        · split <;> trivial
        · exact polite_created (fun w => safe_createOrDelete _ _) fun id => .bind (.perform rfl)
            fun _ => .bind (afterCreation_publishOrMark id (.perform rfl)) fun _ => trivial

theorem harmless_previewCrmData (idKey op periodStart periodEnd community : Nat) :
    (previewCrmData idKey op periodStart periodEnd community : Act F B _).AllOps
      fun o => harmless o = true := by
  unfold previewCrmData
  split
  · trivial
  · refine .bind (.perform rfl) fun key => ?_
    cases key with
    | none => trivial
    | some key =>
        refine .bind (.perform rfl) fun found => ?_
        cases found with
        | false => trivial
        | true => exact .bind (.perform rfl) fun _ => trivial

theorem polite_startSimulationFromCrm (newId : Nat) (req : SimulateFromCrmRequest)
    (community : Nat) :
    (settlement lib simulationId).Polite t (startSimulationFromCrm newId req community : Act F B _) := by
  refine .bind (polite_await rfl) fun key => ?_
  cases key with
  | none => exact fun _ => trivial
  | some key =>
      refine .bind (polite_harmless (harmless_previewCrmData _ _ _ _ _)) fun preflight => ?_
      cases hblockers : preflight.blockers with
      | cons first rest => exact fun _ => trivial
      | nil =>
          exact polite_created (fun w => safe_createSimulation _) fun id => .bind (.perform rfl)
            fun _ => .bind (afterCreation_publishOrMark id trivial) fun _ => trivial

theorem polite_deleteSimulation (id community : Nat) :
    (settlement lib simulationId).Polite t (deleteSimulation id community : Act F B _) := by
  refine polite_harmless (.bind (.perform rfl) fun row => ?_)
  cases row with
  | none => trivial
  | some row =>
      refine .bind (.perform rfl) fun _ => .bind (.perform rfl) fun _ =>
        .bind (.perform rfl) fun _ => ?_
      cases row.resultStorageKey with
      | none => exact .perform rfl
      | some key => exact .bind (.perform rfl) fun _ => .perform rfl

/-- Every entry is safe. -/
theorem safe_entered {e : Entry F B} {w w' : World F B} {p : Act F B Unit} (h : Inv w)
    (hnoTx : NoTx t w) (henter : enter lib simulationId e w = some (w', p)) :
    (settlement lib simulationId).Safe t (fun _ _ => True) p w' := by
  cases e with
  | startSimulation uuid req file community =>
      simp only [enter] at henter
      split_ifs at henter
      obtain ⟨rfl, rfl⟩ := Prod.mk.inj (Option.some.inj henter)
      exact polite_answered (fun _ ho w _ => closes_pre (t := t) ho w) (polite_startSimulation _ _ _ _ _) _
  | startSimulationFromCrm req community =>
      simp only [enter] at henter
      split_ifs at henter
      obtain ⟨rfl, rfl⟩ := Prod.mk.inj (Option.some.inj henter)
      exact polite_answered (fun _ ho w _ => closes_pre (t := t) ho w) (polite_startSimulationFromCrm _ _ _) _
  | deleteSimulation community =>
      obtain ⟨rfl, rfl⟩ := Prod.mk.inj (Option.some.inj henter)
      exact polite_answered (fun _ ho w _ => closes_pre (t := t) ho w) (polite_deleteSimulation _ _) _
  | deliver delivered =>
      simp only [enter] at henter
      split_ifs at henter with hstored
      obtain ⟨rfl, rfl⟩ := Prod.mk.inj (Option.some.inj henter)
      exact safe_handleMessage ⟨h.published (Nat.pos_of_ne_zero hstored), hnoTx⟩ delivered
  | saveSuccess result path =>
      obtain ⟨rfl, rfl⟩ := Prod.mk.inj (Option.some.inj henter)
      exact polite_harmless ((records_saveSuccess ..).mono fun _ => harmless_of_records) _
  | saveFailure errorMessage =>
      obtain ⟨rfl, rfl⟩ := Prod.mk.inj (Option.some.inj henter)
      exact polite_harmless ((records_saveFailure ..).mono fun _ => harmless_of_records) _

end Triples

/-! ## Runs -/

/-- A state in which a run may begin: nothing in progress, the message published
for a created row at most, and no delivery acked. -/
structure Begins [PyFloat F] {lib : Libraries F B L} {simulationId : Nat}
    (c : State lib simulationId) : Prop where
  idle : Idle c
  tx : c.world.db.tx = none
  created : ∀ row, c.world.db.row = some row → c.world.db.created = true
  published : 0 < c.world.nats.stored → c.world.db.created = true
  replies : ∀ t, (t, .ack) ∉ c.world.nats.replies

theorem sound_of_begins [PyFloat F] {lib : Libraries F B L} {simulationId : Nat}
    {c : State lib simulationId} (hbegins : Begins c) : (settlement lib simulationId).Sound c := by
  refine ⟨⟨hbegins.created, hbegins.published, fun tx htx => ?_, fun t h => ?_⟩,
    fun t _ tx htx => ?_, fun t p htask => ?_⟩
  · rw [hbegins.tx] at htx
    cases htx
  · exact absurd h (hbegins.replies t)
  · rw [hbegins.tx] at htx
    cases htx
  · rw [hbegins.idle t] at htask
    cases htask

/-- Once a delivery is acked, the committed row is absent or has its outcome. -/
theorem acked_settled [PyFloat F] {lib : Libraries F B L} {simulationId : Nat}
    {c c' : State lib simulationId} (hbegins : Begins c)
    (hrun : (service lib simulationId).Reaches (fun _ _ => True) c c') {t : Nat}
    (hack : (t, .ack) ∈ c'.world.nats.replies) :
    ∀ row, c'.world.db.row = some row → row.status ≠ .pending := by
  have hend := reaches_sound (sound_of_begins hbegins)
    (fun c t e w p _ hinv hnoTx henter => safe_entered hinv hnoTx henter) hrun
  exact (hend.inv.acked t hack).2

/-- Two copies of one message: while the first solves, the second settles the
row at the delivery limit; the first's claim then finds nothing to flip, and both
are acked. -/
theorem acked_settled_two_deliveries :
    ∃ c : State smallLib 1, (0, .ack) ∈ c.world.nats.replies ∧
      (1, .ack) ∈ c.world.nats.replies ∧ c.world.db.row.isSome = true ∧
      ∀ row, c.world.db.row = some row → row.status ≠ .pending := by
  let start : State smallLib 1 :=
    { world := smallWorld (some smallRow) 1 "d", tasks := fun _ => .idle }
  have hacked : ((System.runAll (fun _ _ => true)
      (.enter 0 (Entry.deliver (some 9)) :: .enter 1 (Entry.deliver (some 10)) ::
        (steps 0 6 ++ steps 1 12 ++ steps 0 6)) start).any
      fun c => c.world.nats.replies = [(1, .ack), (0, .ack)] && c.world.db.row.isSome) = true := by
    decide +kernel
  obtain ⟨c, hc, hacked⟩ := (Option.any_eq_true _ _).mp hacked
  simp only [Bool.and_eq_true, decide_eq_true_eq] at hacked
  have hbegins : Begins start :=
    { idle := fun _ => rfl
      tx := rfl
      created := fun _ _ => rfl
      published := fun _ => rfl
      replies := fun _ => List.not_mem_nil }
  have hfirst : (0, .ack) ∈ c.world.nats.replies := by simp [hacked.1]
  exact ⟨c, hfirst, by simp [hacked.1], hacked.2,
    acked_settled hbegins ((System.reaches_of_runAll hc).mono fun _ _ _ => trivial) hfirst⟩

end SimulationKey.Theorems.Settlement
