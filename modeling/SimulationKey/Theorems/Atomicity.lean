import SimulationKey.Backend.Runs

/-!
# Success is all or nothing

Concurrent `save_success`, `save_failure` and `delete_simulation`, each of which
may fail or die at any operation.

The claim, the tree and the upload share one transaction: what it may commit is
a deletion, or an outcome for a committed PENDING row with its tree and its
object (`Pre`, at the commit). The task whose claim committed is the row's
finisher from then on, and only the finisher writes the audit entry and the
event. An object is deleted only once its row is gone.
-/

namespace SimulationKey.Theorems.Atomicity

open Kit Kit.Prog Kit.Discipline

variable {F B L α β : Type}

/-! ## The discipline -/

/-- An open transaction deletes the row, or holds an outcome for a committed
PENDING row. -/
def TxOk (db : LocalDb F) (tx : Tx F) : Prop :=
  (tx.row = none ∧ tx.claimed = false) ∨
    (tx.claimed = true ∧ (∃ row, db.row = some row ∧ row.status = .pending) ∧
      ∃ row, tx.row = some row ∧ row.status ≠ .pending ∧ tx.trees.length ≤ 1 ∧
        (tx.trees ≠ [] → row.status = .success))

structure DbInv (db : LocalDb F) : Prop where
  created : db.created = true
  trees : db.trees.length ≤ 1
  tree_iff : db.trees ≠ [] ↔ ∃ row, db.row = some row ∧ row.status = .success
  unfinished : ∀ row, db.row = some row → row.status = .pending → db.finisher = none
  finished : ∀ row, db.row = some row → row.status ≠ .pending →
    ∃ t, db.finisher = some (t, row.status)
  tx : ∀ tx, db.tx = some tx → TxOk db tx

/-- The row's result key names an object of the store. -/
def Stored (store : ObjectStore F B) (row : SimulationModel) : Prop :=
  ∃ key, row.resultStorageKey = some key ∧ (store.results key).isSome = true

structure Inv (w : World F B) : Prop where
  db : DbInv w.db
  stored : ∀ row, w.db.row = some row → row.status = .success → Stored w.storage row
  audited : w.audit.terminals.length ≤ 1
  auditedBy : ∀ status ∈ w.audit.terminals, ∃ t, w.db.finisher = some (t, status)
  announced : w.finished.length ≤ 1
  announcedBy : ∀ status ∈ w.finished, ∃ t, w.db.finisher = some (t, status)

/-- What a task can rely on: its transaction is its own, an absent row stays
absent, the finisher stays, and alone announces; while a task holds a claim no
object goes. -/
structure Rely (t : Nat) (w w' : World F B) : Prop where
  tx : TxKept t w w'
  gone : w.db.row = none → w'.db.row = none
  finisher : ∀ x, w.db.finisher = some x → w'.db.finisher = some x
  audited : (∃ status, w.db.finisher = some (t, status)) → w.audit.terminals = [] →
    w'.audit.terminals = []
  announced : (∃ status, w.db.finisher = some (t, status)) → w.finished = [] → w'.finished = []
  results : (∃ tx, w.db.tx = some tx ∧ tx.owner.task = t ∧ tx.claimed = true) →
    ∀ key, (w.storage.results key).isSome = true → (w'.storage.results key).isSome = true

/-- A transaction that may commit: a deletion, a failure, or a success with its
tree and its object. -/
def Committable (store : ObjectStore F B) (tx : Tx F) : Prop :=
  ∀ row, tx.row = some row → row.status = .success → tx.trees.length = 1 ∧ Stored store row

def Pre (t : Nat) : Op F B → World F B → Prop
  | .claim _ values, _ => ∃ status, values.status = some status ∧ status ≠ .pending
  | .updateRow .., _ => False
  | .insertRow .., _ => False
  | .insertTree s _, w => ∀ tx, w.db.own ⟨t, s⟩ = some tx →
      tx.trees = [] ∧ ∃ row, tx.row = some row ∧ row.status = .success
  | .commitLocal s, w => ∀ tx, w.db.own ⟨t, s⟩ = some tx → Committable w.storage tx
  | .logAudit _ entry, w => ∀ status, entry.terminal = some status →
      w.db.finisher = some (t, status) ∧ w.audit.terminals = []
  | .emit hint, w => w.db.finisher = some (t, hint) ∧ w.finished = []
  | .delete (some (.result _)), w => w.db.row = none
  | _, _ => True

/-! ## The local database -/

/-- Staging changes nothing that is committed. -/
theorem DbInv.stage {db : LocalDb F} (h : DbInv db) {tx : Tx F}
    (htx : TxOk db tx) : DbInv { db with tx := some tx } :=
  { created := h.created
    trees := h.trees
    tree_iff := h.tree_iff
    unfinished := h.unfinished
    finished := h.finished
    tx := fun tx' htx' => by
      obtain rfl := Option.some.inj htx'
      exact htx }

theorem DbInv.drop {db : LocalDb F} (h : DbInv db) : DbInv { db with tx := none } :=
  { created := h.created
    trees := h.trees
    tree_iff := h.tree_iff
    unfinished := h.unfinished
    finished := h.finished
    tx := fun tx htx => by cases htx }

/-- A PENDING row has no tree. -/
theorem DbInv.trees_of_pending {db : LocalDb F} (h : DbInv db) {row : SimulationModel}
    (hrow : db.row = some row) (hpending : row.status = .pending) : db.trees = [] := by
  by_contra htrees
  obtain ⟨row', hrow', hsuccess⟩ := h.tree_iff.mp htrees
  obtain rfl := Option.some.inj (hrow.symm.trans hrow')
  rw [hpending] at hsuccess
  cases hsuccess

/-- What a commit installs. -/
theorem DbInv.commit {db : LocalDb F} (h : DbInv db) {me : SessionId} {tx : Tx F}
    (hown : db.own me = some tx)
    (hready : ∀ row, tx.row = some row → row.status = .success → tx.trees.length = 1) :
    DbInv (db.commit me) := by
  rw [LocalDb.commit_of_own hown]
  rcases h.tx tx ((LocalDb.own_eq_some _ _).mp hown).1 with ⟨hrow, hclaimed⟩ |
    ⟨hclaimed, ⟨old, hold, hpending⟩, row, hrow, houtcome, hlength, hsuccess⟩
  · -- a deletion takes the trees with it
    simp only [hrow, Option.isNone_none, if_true]
    exact ⟨rfl, Nat.zero_le 1, by simp, by simp, by simp, by simp⟩
  · simp only [hrow, Option.isNone_some, Bool.false_eq_true, if_false, hclaimed, if_true,
      h.trees_of_pending hold hpending, List.nil_append]
    refine ⟨rfl, hlength, ⟨fun htrees => ⟨row, rfl, hsuccess htrees⟩, ?_⟩, ?_, ?_, ?_⟩
    · rintro ⟨row', hrow', hsuccess'⟩ htrees
      obtain rfl := Option.some.inj hrow'
      have hone := hready row hrow hsuccess'
      rw [show tx.trees = [] from htrees] at hone
      cases hone
    · intro row' hrow' hpending'
      obtain rfl := Option.some.inj hrow'
      exact absurd hpending' houtcome
    · intro row' hrow' _
      obtain rfl := Option.some.inj hrow'
      exact ⟨me.task, rfl⟩
    · intro tx' htx'
      cases htx'

/-- What a step keeps of the local database: an absent row stays absent, and the
finisher is named once. -/
structure DbKept (db db' : LocalDb F) : Prop where
  inv : DbInv db'
  gone : db.row = none → db'.row = none
  finisher : ∀ x, db.finisher = some x → db'.finisher = some x

theorem DbKept.of_commit {db : LocalDb F} (h : DbInv db) {me : SessionId} {tx : Tx F}
    (hown : db.own me = some tx)
    (hready : ∀ row, tx.row = some row → row.status = .success → tx.trees.length = 1) :
    DbKept db (db.commit me) := by
  refine ⟨h.commit hown hready, ?_, ?_⟩
  all_goals
    rw [LocalDb.commit_of_own hown]
    rcases h.tx tx ((LocalDb.own_eq_some _ _).mp hown).1 with ⟨hrow, hclaimed⟩ |
      ⟨hclaimed, ⟨old, hold, hpending⟩, row, hrow, -⟩
  · exact fun _ => hrow
  · intro hnone
    rw [hnone] at hold
    cases hold
  · intro x hx
    simpa [hclaimed] using hx
  · -- the row was PENDING: it had no finisher
    intro x hx
    rw [h.unfinished old hold hpending] at hx
    cases hx

theorem DbKept.of_move {w : World F B} {t : Nat} {o : Op F B} {db : LocalDb F} (h : DbInv w.db)
    (hpre : Pre t o w) (hmove : DbMove t w.db o db) : DbKept w.db db := by
  cases hmove with
  | same => exact ⟨h, id, fun _ => id⟩
  | @claim s values row free visible pending =>
      refine ⟨h.stage ?_, id, fun _ => id⟩
      obtain ⟨status, hstatus, houtcome⟩ := hpre
      rcases LocalDb.free_cases free with ⟨-, hown, hsame⟩ | ⟨tx, htx, -, -, hown⟩
      · refine Or.inr ⟨rfl, ⟨row, hsame ▸ visible, pending⟩, _, rfl, ?_, ?_, ?_⟩
        · simpa [hstatus] using houtcome
        · simp [hown]
        · simp [hown]
      · -- what a session has staged is no PENDING row
        rw [hown] at visible
        rcases h.tx tx htx with ⟨hnone, -⟩ | ⟨-, -, row', hrow', houtcome', -⟩
        · rw [hnone] at visible
          cases visible
        · obtain rfl := Option.some.inj (hrow'.symm.trans visible)
          exact absurd pending houtcome'
  | update => exact hpre.elim
  | insert => exact hpre.elim
  | delete free visible => exact ⟨h.stage (Or.inl ⟨rfl, rfl⟩), id, fun _ => id⟩
  | @tree s tx tree own =>
      refine ⟨h.stage ?_, id, fun _ => id⟩
      obtain ⟨htrees, row, hrow, hsuccess⟩ := hpre tx own
      rcases h.tx tx ((LocalDb.own_eq_some _ _).mp own).1 with ⟨hnone, -⟩ |
        ⟨hclaimed, hpending, row', hrow', houtcome, -⟩
      · rw [hnone] at hrow
        cases hrow
      · obtain rfl := Option.some.inj (hrow.symm.trans hrow')
        exact Or.inr ⟨hclaimed, hpending, row, hrow, houtcome, by simp [htrees],
          fun _ => hsuccess⟩
  | commit s =>
      cases hown : w.db.own ⟨t, s⟩ with
      | none =>
          rw [LocalDb.commit_of_not_own hown]
          exact ⟨h, id, fun _ => id⟩
      | some tx =>
          exact DbKept.of_commit h hown fun row hrow hsuccess =>
            (hpre tx hown row hrow hsuccess).1
  | rollback s =>
      cases hown : w.db.own ⟨t, s⟩ with
      | none =>
          rw [LocalDb.rollback_of_not_own hown]
          exact ⟨h, id, fun _ => id⟩
      | some tx =>
          rw [LocalDb.rollback_of_own hown]
          exact ⟨h.drop, id, fun _ => id⟩

/-! ## Soundness -/

/-- A commit of a SUCCESS has its object; other moves leave the committed row. -/
theorem stored_of_move {w : World F B} {t : Nat} {o : Op F B} {db : LocalDb F} (h : Inv w)
    (hpre : Pre t o w) (hmove : DbMove t w.db o db) :
    ∀ row, db.row = some row → row.status = .success → Stored w.storage row := by
  cases hmove with
  | same | claim | update | insert | delete | tree => exact h.stored
  | commit s =>
      cases hown : w.db.own ⟨t, s⟩ with
      | none =>
          rw [LocalDb.commit_of_not_own hown]
          exact h.stored
      | some tx =>
          rw [LocalDb.commit_of_own hown]
          exact fun row hrow hsuccess => (hpre tx hown row hrow hsuccess).2
  | rollback s =>
      cases hown : w.db.own ⟨t, s⟩ with
      | none =>
          rw [LocalDb.rollback_of_not_own hown]
          exact h.stored
      | some tx =>
          rw [LocalDb.rollback_of_own hown]
          exact h.stored

theorem Inv.of_db {w : World F B} {db : LocalDb F} (h : Inv w) (hkept : DbKept w.db db)
    (hstored : ∀ row, db.row = some row → row.status = .success → Stored w.storage row) :
    Inv { w with db := db } :=
  { db := hkept.inv
    stored := hstored
    audited := h.audited
    auditedBy := fun status hstatus =>
      (h.auditedBy status hstatus).imp fun _ => hkept.finisher _
    announced := h.announced
    announcedBy := fun status hstatus =>
      (h.announcedBy status hstatus).imp fun _ => hkept.finisher _ }

theorem Inv.of_terminals {w : World F B} {log : AuditLog} (h : Inv w)
    (hlength : log.terminals.length ≤ w.audit.terminals.length)
    (hsubset : ∀ status ∈ log.terminals, status ∈ w.audit.terminals) :
    Inv { w with audit := log } :=
  { db := h.db
    stored := h.stored
    audited := hlength.trans h.audited
    auditedBy := fun status hstatus => h.auditedBy status (hsubset status hstatus)
    announced := h.announced
    announcedBy := h.announcedBy }

theorem Inv.of_audit {w : World F B} {t : Nat} {o : Op F B} {log : AuditLog} (h : Inv w)
    (hpre : Pre t o w) (hmove : AuditMove t w.audit o log) : Inv { w with audit := log } := by
  cases hmove with
  | stage s entry =>
      have hterminals := AuditLog.terminals_stage w.audit ⟨t, s⟩ entry
      cases hstatus : entry.terminal with
      | none =>
          rw [hstatus, Option.toList_none, List.append_nil] at hterminals
          exact h.of_terminals (by rw [hterminals]) (by simp [hterminals])
      | some status =>
          obtain ⟨hfinisher, hnone⟩ := hpre status hstatus
          rw [hstatus, hnone, Option.toList_some, List.nil_append] at hterminals
          refine ⟨h.db, h.stored, by simp [hterminals], fun status' hmem => ?_, h.announced,
            h.announcedBy⟩
          rw [hterminals, List.mem_singleton] at hmem
          exact ⟨t, hmem ▸ hfinisher⟩
  | commit s =>
      have hperm := AuditLog.terminals_commit w.audit ⟨t, s⟩
      exact h.of_terminals hperm.length_eq.le fun _ => hperm.mem_iff.mp
  | rollback s =>
      have hsub := AuditLog.terminals_rollback w.audit ⟨t, s⟩
      exact h.of_terminals hsub.length_le fun _ => hsub.mem

/-- An object goes only when its row has. -/
theorem Inv.of_storage {w : World F B} {t : Nat} {o : Op F B} {store : ObjectStore F B}
    (h : Inv w) (hpre : Pre t o w) (hmove : StoreMove w.storage o store) :
    Inv { w with storage := store } := by
  refine ⟨h.db, fun row hrow hsuccess => ?_, h.audited, h.auditedBy, h.announced, h.announcedBy⟩
  obtain ⟨key, hkey, hobject⟩ := h.stored row hrow hsuccess
  refine ⟨key, hkey, ?_⟩
  cases hmove with
  | source => exact hobject
  | result key' path series =>
      by_cases heq : key = key'
      · simp [ObjectStore.putResult, heq]
      · simpa [ObjectStore.putResult, heq] using hobject
  | delete target =>
      cases target with
      | none => exact hobject
      | some target =>
          cases target with
          | source key' => exact hobject
          | result key' =>
              rw [show w.db.row = none from hpre] at hrow
              cases hrow

theorem Inv.of_finished {w : World F B} {t : Nat} {hint : SimulationStatus} (h : Inv w)
    (hpre : Pre t (.emit hint) w) : Inv { w with finished := w.finished ++ [hint] } := by
  obtain ⟨hfinisher, hnone⟩ := hpre
  refine ⟨h.db, h.stored, h.audited, h.auditedBy, by simp [hnone], fun status hmem => ?_⟩
  rw [hnone, List.nil_append, List.mem_singleton] at hmem
  exact ⟨t, hmem ▸ hfinisher⟩

/-- The other tasks see no more of a step than they rely on. -/
theorem Rely.of_effect {w w' : World F B} {t t' : Nat} {o : Op F B} (h : Inv w)
    (hpre : Pre t o w) (heffect : Effect t w o w') (hne : t' ≠ t) : Rely t' w w' := by
  have hothers : ∀ tx, tx.owner.task = t' → (w.db.tx = some tx ↔ w'.db.tx = some tx) :=
    fun tx howner => heffect.toDb.others (by rw [howner]; exact hne)
  have hkept := DbKept.of_move h.db hpre heffect.toDb
  -- a finisher is one task
  have hfinisher : ∀ {status}, w.db.finisher = some (t, status) →
      ¬ ∃ status', w.db.finisher = some (t', status') := by
    rintro status hmine ⟨status', htheirs⟩
    obtain ⟨heq, -⟩ := Prod.mk.inj (Option.some.inj (htheirs.symm.trans hmine))
    exact hne heq
  refine ⟨hothers, hkept.gone, hkept.finisher, fun htheirs hnone => ?_, fun htheirs hnone => ?_,
    fun hclaimed key hobject => ?_⟩
  · cases heffect with
    | none | db | storage | nats | files | finished => exact hnone
    | audit hmove =>
        cases hmove with
        | stage s entry =>
            rw [AuditLog.terminals_stage, hnone, List.nil_append]
            cases hstatus : entry.terminal with
            | none => rfl
            | some status => exact absurd htheirs (hfinisher (hpre status hstatus).1)
        | commit s =>
            have hperm := AuditLog.terminals_commit w.audit ⟨t, s⟩
            rw [hnone] at hperm
            exact hperm.eq_nil
        | rollback s =>
            have hsub := AuditLog.terminals_rollback w.audit ⟨t, s⟩
            rw [hnone] at hsub
            exact List.sublist_nil.mp hsub
  · cases heffect with
    | none | db | audit | storage | nats | files => exact hnone
    | finished hint => exact absurd htheirs (hfinisher hpre.1)
  · cases heffect with
    | none | db | audit | nats | files | finished => exact hobject
    | storage hmove =>
        cases hmove with
        | source => exact hobject
        | result key' path series =>
            by_cases heq : key = key'
            · simp [ObjectStore.putResult, heq]
            · simpa [ObjectStore.putResult, heq] using hobject
        | delete target =>
            cases target with
            | none => exact hobject
            | some target =>
                cases target with
                | source key' => exact hobject
                | result key' =>
                    -- a claim is held: the row is there
                    obtain ⟨tx, htx, -, hclaimed⟩ := hclaimed
                    rcases h.db.tx tx htx with ⟨-, hnot⟩ | ⟨-, ⟨row, hrow, -⟩, -⟩
                    · rw [hclaimed] at hnot
                      cases hnot
                    · rw [show w.db.row = none from hpre] at hrow
                      cases hrow

theorem Rely.of_same {t : Nat} {w w' : World F B} (hdb : w'.db = w.db)
    (haudit : w'.audit = w.audit) (hfinished : w'.finished = w.finished)
    (hstorage : w'.storage = w.storage) : Rely t w w' := by
  refine ⟨fun tx _ => by rw [hdb], ?_, ?_, fun _ h => ?_, fun _ h => ?_, fun _ key h => ?_⟩
  · rw [hdb]
    exact id
  · rw [hdb]
    exact fun _ => id
  · rw [haudit]
    exact h
  · rw [hfinished]
    exact h
  · rw [hstorage]
    exact h

theorem abort_sound {t : Nat} {w : World F B} (h : Inv w) :
    Inv (w.abort t) ∧ ∀ t', t' ≠ t → Rely t' w (w.abort t) := by
  have hkept : DbKept w.db (w.abort t).db ∧ ∀ row, (w.abort t).db.row = some row →
      row.status = .success → Stored w.storage row := by
    rcases World.abort_db t w with hsame | ⟨tx, -, -, hdrop⟩
    · rw [hsame]
      exact ⟨⟨h.db, id, fun _ => id⟩, h.stored⟩
    · rw [hdrop]
      exact ⟨⟨h.db.drop, id, fun _ => id⟩, h.stored⟩
  have hterminals : (w.abort t).audit.terminals.Sublist w.audit.terminals :=
    (AuditLog.terminals_rollback _ _).trans (AuditLog.terminals_rollback _ _)
  refine ⟨(h.of_db hkept.1 hkept.2).of_terminals hterminals.length_le
    fun _ => hterminals.mem, fun t' hne => ?_⟩
  refine ⟨fun tx howner => World.abort_others (by rw [howner]; exact hne), hkept.1.gone,
    hkept.1.finisher, fun _ hnone => ?_, fun _ => id, fun _ _ => id⟩
  rw [hnone] at hterminals
  exact List.sublist_nil.mp hterminals

theorem Rely.trans {t : Nat} {w w' w'' : World F B} (h : Rely t w w') (h' : Rely t w' w'') :
    Rely t w w'' :=
  { tx := fun tx howner => (h.tx tx howner).trans (h'.tx tx howner)
    gone := h'.gone ∘ h.gone
    finisher := fun x hx => h'.finisher x (h.finisher x hx)
    audited := fun hmine hnone => h'.audited (hmine.imp fun _ => h.finisher _) (h.audited hmine hnone)
    announced := fun hmine hnone =>
      h'.announced (hmine.imp fun _ => h.finisher _) (h.announced hmine hnone)
    results := fun ⟨tx, htx, howner, hclaimed⟩ key hobject =>
      h'.results ⟨tx, (h.tx tx howner).mp htx, howner, hclaimed⟩ key
        (h.results ⟨tx, htx, howner, hclaimed⟩ key hobject) }

section Discipline

variable [PyFloat F] (lib : Libraries F B L) (simulationId : Nat)

theorem exec_sound {choice : Choice} {t : Nat} {o : Op F B} {w w' : World F B}
    {r : Except Exn o.Resp} (h : Inv w) (hpre : Pre t o w)
    (hexec : exec choice t o w = some (r, w')) : Inv w' ∧ ∀ t', t' ≠ t → Rely t' w w' := by
  have heffect := exec_effect hexec
  refine ⟨?_, fun t' hne => Rely.of_effect h hpre heffect hne⟩
  cases heffect with
  | none => exact h
  | db hmove => exact h.of_db (DbKept.of_move h.db hpre hmove) (stored_of_move h hpre hmove)
  | audit hmove => exact h.of_audit hpre hmove
  | storage hmove => exact h.of_storage hpre hmove
  | finished hint => exact h.of_finished hpre
  | nats | files =>
      exact ⟨h.db, h.stored, h.audited, h.auditedBy, h.announced, h.announcedBy⟩

theorem enter_sound {e : Entry F B} {w w' : World F B} {p : Act F B Unit} (h : Inv w)
    (henter : enter lib simulationId e w = some (w', p)) : Inv w' ∧ ∀ t, Rely t w w' := by
  obtain ⟨started, rfl⟩ := enter_world henter
  exact ⟨⟨h.db, h.stored, h.audited, h.auditedBy, h.announced, h.announcedBy⟩,
    fun _ => Rely.of_same rfl rfl rfl rfl⟩

def atomicity : Discipline (service lib simulationId) where
  inv := Inv
  rely := Rely
  unstarted := NoTx
  pre := Pre
  unstarted_rely := fun h hrely => h.kept hrely.tx
  rely_refl := fun _ _ => Rely.of_same rfl rfl rfl rfl
  rely_trans := Rely.trans
  exec_sound := exec_sound
  enter_sound := enter_sound lib simulationId
  abort_sound := abort_sound
  event_sound := fun h => ⟨⟨h.db, h.stored, h.audited, h.auditedBy, h.announced, h.announcedBy⟩,
    fun _ => Rely.of_same rfl rfl rfl rfl⟩

end Discipline

/-! ## Assertions -/

section Triples

variable [PyFloat F] {lib : Libraries F B L} {simulationId : Nat} {t : Nat}
  {status : SimulationStatus}

theorem noTx_stable : (atomicity lib simulationId).Stable t (NoTx t) :=
  fun h hrely => h.kept hrely.tx

/-- The session holds an outcome for the row, with so many trees. -/
def Claimed (t : Nat) (outcome : SimulationModel → Prop) (trees : Nat) (w : World F B) : Prop :=
  ∃ tx row, w.db.tx = some tx ∧ tx.owner = ⟨t, .own⟩ ∧ tx.claimed = true ∧
    tx.trees.length = trees ∧ tx.row = some row ∧ outcome row

/-- The session holds an outcome for the row, with its tree and its object. -/
def Ready (t : Nat) (status : SimulationStatus) (w : World F B) : Prop :=
  ∃ tx row, w.db.tx = some tx ∧ tx.owner = ⟨t, .own⟩ ∧ tx.claimed = true ∧ tx.row = some row ∧
    row.status = status ∧ Committable w.storage tx

/-- The task's claim has committed, and its event is not out. -/
structure Hinting (t : Nat) (status : SimulationStatus) (w : World F B) : Prop where
  finisher : w.db.finisher = some (t, status)
  announced : w.finished = []

/-- The task's claim has committed, and nothing is announced yet. -/
structure Won (t : Nat) (status : SimulationStatus) (w : World F B) : Prop
    extends Hinting t status w where
  audited : w.audit.terminals = []

theorem claimed_stable {outcome : SimulationModel → Prop} {trees : Nat} :
    (atomicity lib simulationId).Stable t (Claimed t outcome trees) := by
  rintro w w' ⟨tx, row, htx, howner, hrest⟩ hrely
  exact ⟨tx, row, (hrely.tx tx (by rw [howner])).mp htx, howner, hrest⟩

theorem ready_stable : (atomicity lib simulationId).Stable t (Ready t status) := by
  rintro w w' ⟨tx, row, htx, howner, hclaimed, hrow, hstatus, hready⟩ hrely
  refine ⟨tx, row, (hrely.tx tx (by rw [howner])).mp htx, howner, hclaimed, hrow, hstatus,
    fun row hrow hsuccess => ?_⟩
  obtain ⟨htree, key, hkey, hobject⟩ := hready row hrow hsuccess
  exact ⟨htree, key, hkey,
    hrely.results ⟨tx, htx, by rw [howner], hclaimed⟩ key hobject⟩

theorem hinting_stable : (atomicity lib simulationId).Stable t (Hinting t status) :=
  fun h hrely => ⟨hrely.finisher _ h.finisher, hrely.announced ⟨status, h.finisher⟩ h.announced⟩

theorem won_stable : (atomicity lib simulationId).Stable t (Won t status) := fun h hrely =>
  { toHinting := hinting_stable h.toHinting hrely
    audited := hrely.audited ⟨status, h.finisher⟩ h.audited }

omit [PyFloat F] in
/-- Before a finisher is named, nothing is announced. -/
theorem Inv.silent {w : World F B} (h : Inv w) (hnone : w.db.finisher = none) :
    w.audit.terminals = [] ∧ w.finished = [] := by
  constructor
  · refine List.eq_nil_iff_forall_not_mem.mpr fun status hmem => ?_
    obtain ⟨t, ht⟩ := h.auditedBy status hmem
    rw [hnone] at ht
    cases ht
  · refine List.eq_nil_iff_forall_not_mem.mpr fun status hmem => ?_
    obtain ⟨t, ht⟩ := h.announcedBy status hmem
    rw [hnone] at ht
    cases ht

/-! ## The claim and its commit -/

theorem claimed_of_noTx {values : RowValues} {w w' : World F B} {choice : Choice} {n : Nat}
    (h : NoTx t w) (hexec : exec choice t (.claim .own values) w = some (.ok n, w')) (hn : n ≠ 0) :
    Claimed t (fun row => ∃ old : SimulationModel, row = old.set values) 0 w' := by
  obtain ⟨x, hx, heq⟩ := Option.map_eq_some_iff.mp (exec_ok rfl hexec)
  obtain ⟨hr, rfl⟩ := Prod.mk.inj heq
  rcases claim_cases (r := x.1) hx with ⟨row, hok, -, -, -, hdb⟩ | ⟨hok, -, -⟩
  · rw [hdb]
    exact ⟨_, _, rfl, rfl, rfl, by simp [h.own .own], rfl, row, rfl⟩
  · exact absurd (Except.ok.inj (hr.symm.trans hok)) hn

/-- A commit that is known to have happened makes the task the finisher. -/
theorem Ready.commit {w w' : World F B} {choice : Choice} (h : Ready t status w) (hinv : Inv w)
    (hexec : exec choice t (.commitLocal .own) w = some (.ok (), w')) : Won t status w' := by
  obtain ⟨tx, row, htx, howner, hclaimed, hrow, hstatus, -⟩ := h
  have hown : w.db.own ⟨t, .own⟩ = some tx := (LocalDb.own_eq_some _ _).mpr ⟨htx, howner⟩
  have hnone : w.db.finisher = none := by
    rcases hinv.db.tx tx htx with ⟨hdeleted, -⟩ | ⟨-, ⟨old, hold, hpending⟩, -⟩
    · rw [hrow] at hdeleted
      cases hdeleted
    · exact hinv.db.unfinished old hold hpending
  obtain ⟨haudited, hannounced⟩ := hinv.silent hnone
  obtain ⟨-, rfl⟩ := Prod.mk.inj (Option.some.inj (exec_ok rfl hexec))
  refine { finisher := ?_, announced := hannounced, audited := haudited }
  simp only [LocalDb.commit_of_own hown, hclaimed, hrow, Option.map_some, if_true, hstatus]

omit [PyFloat F] in
theorem Won.rollback {w : World F B} {me : SessionId} (h : Won t status w) :
    Won t status { w with db := w.db.rollback me } := by
  refine { finisher := ?_, announced := h.announced, audited := h.audited }
  cases hown : w.db.own me with
  | none =>
      rw [LocalDb.rollback_of_not_own hown]
      exact h.finisher
  | some tx =>
      rw [LocalDb.rollback_of_own hown]
      exact h.finisher

/-- What is won in a session is won when it is closed. -/
theorem won_session {p : Act F B (Option Nat)} {w : World F B}
    (h : (atomicity lib simulationId).Safe t
      (fun r w => ∀ c, r = .ok (some c) → Won t status w) p w) :
    (atomicity lib simulationId).Safe t (fun r w => ∀ c, r = .ok (some c) → Won t status w)
      (withLocalSession .own p) w := by
  refine Safe.ensuring (h.mono fun outcome w hwon => ?_)
  refine safe_perform (d := atomicity lib simulationId)
    (A := fun w => ∀ c, outcome = .ok (some c) → Won t status w)
    (fun h hrely c hc => won_stable (h c hc) hrely) hwon (fun _ _ _ => trivial)
    fun choice r w' w'' _ hwon hexec => ?_
  obtain rfl := exec_closeLocal hexec
  cases r with
  | ok u => exact fun c hc => Won.rollback (hwon c hc)
  | error e => exact fun c h => by cases h

/-- A task that starts without a transaction has won when it ends with a
community. -/
theorem safe_claimAndCommit {values : SimulationModel → RowValues}
    {rest : SimulationModel → Act F B Unit} {w : World F B} (hw : NoTx t w)
    (hvalues : ∀ row, (values row).status = some status) (houtcome : status ≠ .pending)
    (hrest : ∀ row w, Claimed t (fun r => ∃ old : SimulationModel, r = old.set (values row)) 0 w →
      (atomicity lib simulationId).Safe t (fun r w => r = .ok () → Ready t status w)
        (rest row) w) :
    (atomicity lib simulationId).Safe t (fun r w => ∀ c, r = .ok (some c) → Won t status w)
      (claimAndCommit values rest) w := by
  refine won_session (Safe.bind (safe_perform (d := atomicity lib simulationId) noTx_stable hw
    (fun _ _ _ => trivial) fun choice r w w' _ hnoTx hexec => ?_))
  have hnoTx' : NoTx t w' := by
    have hdb := (exec_db hexec).eq_of_not_writesDb rfl
    exact fun tx htx => hnoTx tx (hdb ▸ htx)
  cases r with
  | error e => exact fun c h => by cases h
  | ok row =>
      cases row with
      | none => exact fun c h => by cases h
      | some simulation =>
          refine Safe.bind (safe_perform (d := atomicity lib simulationId) noTx_stable hnoTx'
            (fun _ _ _ => ⟨status, hvalues simulation, houtcome⟩)
            fun choice r w₁ w₂ _ hnoTx hexec => ?_)
          cases r with
          | error e => exact fun c h => by cases h
          | ok n =>
              by_cases hn : n = 0
              · simp only [hn, if_true]
                exact fun c h => by cases h
              · simp only [hn, if_false]
                refine Safe.bind ((hrest simulation w₂ (claimed_of_noTx hnoTx hexec hn)).mono
                  fun r w hready => ?_)
                cases r with
                | error e => exact fun c h => by cases h
                | ok u =>
                    refine Safe.bind (safe_perform ready_stable (hready rfl)
                      (fun w _ hready tx hown => ?_) fun choice r w₃ w₄ hinv hready hexec => ?_)
                    · obtain ⟨tx', row, htx, -, -, -, -, hcommittable⟩ := hready
                      obtain rfl := Option.some.inj
                        (htx.symm.trans ((LocalDb.own_eq_some _ _).mp hown).1)
                      exact hcommittable
                    · cases r with
                      | error e => exact fun c h => by cases h
                      | ok u => exact fun c _ => hready.commit hinv hexec

/-! ## The audit entry and the event -/

theorem Hinting.exec {choice : Choice} {o : Op F B} {w w' : World F B} {r : Except Exn o.Resp}
    (h : Hinting t status w) (hdb : o.writesDb = false) (hemit : ∀ hint, o ≠ .emit hint)
    (hexec : exec choice t o w = some (r, w')) : Hinting t status w' := by
  have heffect := exec_effect hexec
  refine ⟨by rw [heffect.toDb.eq_of_not_writesDb hdb]; exact h.finisher, ?_⟩
  cases heffect with
  | finished hint => exact absurd rfl (hemit hint)
  | none | db | audit | storage | nats | files => exact h.announced

theorem safe_announce {w : World F B} {id idCommunity : Nat} {payload : AuditPayload}
    (hw : Won t status w)
    (hpayload : ({ payload := payload, entityId := id, idCommunity := idCommunity } :
      AuditEntry).terminal = some status) :
    (atomicity lib simulationId).Safe t (fun _ _ => True)
      (announce id idCommunity payload status) w := by
  have hcrm : (atomicity lib simulationId).Safe t (fun _ w => Hinting t status w)
      (await (.logAudit .own
        { payload := payload, entityId := id, idCommunity := idCommunity }) >>= fun _ =>
          await (.commitCrm .own)) w := by
    refine Safe.bind (safe_perform won_stable hw (fun w _ hwon recorded hrecorded => ?_)
      fun choice r w w' _ hwon hexec => ?_)
    · obtain rfl := Option.some.inj (hpayload.symm.trans hrecorded)
      exact ⟨hwon.finisher, hwon.audited⟩
    · have hhinting := hwon.toHinting.exec rfl (by simp) hexec
      cases r with
      | error e => exact hhinting
      | ok u =>
          exact safe_perform hinting_stable hhinting (fun _ _ _ => trivial)
            fun _ _ _ _ _ h hexec => h.exec rfl (by simp) hexec
  refine Safe.bind (Safe.ensuring (hcrm.mono fun outcome w hhinting => ?_))
  refine safe_perform hinting_stable hhinting (fun _ _ _ => trivial)
    fun choice r w w' _ h hexec => ?_
  have hhinting := h.exec rfl (by simp) hexec
  have hemit : (atomicity lib simulationId).Safe t (fun _ _ => True) (await (.emit status)) w' :=
    safe_perform hinting_stable hhinting (fun _ _ h => ⟨h.finisher, h.announced⟩)
      fun _ _ _ _ _ _ _ => trivial
  cases r with
  | error e => trivial
  | ok u =>
      cases outcome with
      | ok u => exact hemit
      | error e => trivial

/-! ## The entries -/

theorem safe_saveFailure {w : World F B} (hw : NoTx t w) (id : Nat) (errorMessage : String) :
    (atomicity lib simulationId).Safe t (fun _ _ => True) (saveFailure id errorMessage) w := by
  have hready : ∀ w, Claimed t
      (fun r => ∃ old : SimulationModel, r = old.set (failureValues errorMessage)) 0 w →
        (atomicity lib simulationId).Safe t (fun r w => r = .ok () → Ready t .failed w)
          (pure () : Act F B Unit) w := by
    rintro w ⟨tx, new, htx, howner, hclaimed, -, hrow, old, rfl⟩ -
    refine ⟨tx, _, htx, howner, hclaimed, hrow, rfl, fun row' hrow' hsuccess => ?_⟩
    obtain rfl := Option.some.inj (hrow.symm.trans hrow')
    cases hsuccess
  refine Safe.bind ((safe_claimAndCommit hw (fun _ => rfl) (by decide)
    fun _ => hready).mono fun r w hwon => ?_)
  cases r with
  | error e => trivial
  | ok committed =>
      cases committed with
      | none => trivial
      | some idCommunity => exact safe_announce (hwon idCommunity rfl) rfl

/-- The tree, then the object, under the claim. -/
theorem safe_treeAndObject {w : World F B} {tree : SimulationKeyResultModel F} {key : ResultKey}
    {path : Nat}
    (hw : Claimed t (fun r => ∃ old : SimulationModel, r = old.set (successValues key)) 0 w) :
    (atomicity lib simulationId).Safe t (fun r w => r = .ok () → Ready t .success w)
      (await (.insertTree .own tree) >>= fun _ => await (.uploadFile key path)) w := by
  refine Safe.bind (safe_perform claimed_stable hw (fun w _ hclaimed tx hown => ?_)
    fun choice r w w' _ hclaimed hexec => ?_)
  · obtain ⟨tx', new, htx, -, -, htrees, hrow, old, rfl⟩ := hclaimed
    obtain rfl := Option.some.inj (htx.symm.trans ((LocalDb.own_eq_some _ _).mp hown).1)
    exact ⟨List.length_eq_zero_iff.mp htrees, _, hrow, rfl⟩
  · cases r with
    | error e => exact fun h => by cases h
    | ok u =>
        have htree : Claimed t (fun r => ∃ old : SimulationModel, r = old.set (successValues key))
            1 w' := by
          obtain ⟨tx, new, htx, howner, hflag, htrees, hrow, hnew⟩ := hclaimed
          have hown : w.db.own ⟨t, .own⟩ = some tx :=
            (LocalDb.own_eq_some _ _).mpr ⟨htx, howner⟩
          obtain ⟨x, hx, heq⟩ := Option.map_eq_some_iff.mp (exec_ok rfl hexec)
          obtain ⟨hr, rfl⟩ := Prod.mk.inj heq
          unfold LocalDb.insertTree at hx
          simp only [hown] at hx
          split_ifs at hx
          · rw [← Option.some.inj hx]
            exact ⟨_, new, rfl, howner, hflag, by simp [htrees], hrow, hnew⟩
          · rw [← Option.some.inj hx] at hr
            cases hr
        refine safe_perform claimed_stable htree (fun _ _ _ => trivial)
          fun choice r w₁ w₂ _ hclaimed hexec => ?_
        rintro rfl
        obtain ⟨tx, new, htx, howner, hflag, htrees, hrow, old, rfl⟩ := hclaimed
        have hput : ∃ series, w₂ = { w₁ with storage := w₁.storage.putResult key series } := by
          have hdone := exec_ok rfl hexec
          simp only [answer] at hdone
          split at hdone
          · cases hdone
          · obtain ⟨-, rfl⟩ := Prod.mk.inj (Option.some.inj hdone)
            exact ⟨_, rfl⟩
        obtain ⟨series, rfl⟩ := hput
        refine ⟨tx, _, htx, howner, hflag, hrow, rfl, fun row' hrow' _ => ?_⟩
        obtain rfl := Option.some.inj (hrow.symm.trans hrow')
        exact ⟨htrees, key, rfl, by simp [ObjectStore.putResult]⟩

theorem safe_saveSuccess {w : World F B} (hw : NoTx t w) (id : Nat) (result : KeySimResult F)
    (path : Nat) :
    (atomicity lib simulationId).Safe t (fun _ _ => True) (saveSuccess id result path) w := by
  refine Safe.bind ((safe_claimAndCommit hw (fun _ => rfl) (by decide)
    fun row w hclaimed => safe_treeAndObject hclaimed).mono fun r w hwon => ?_)
  cases r with
  | error e => trivial
  | ok committed =>
      cases committed with
      | none => trivial
      | some idCommunity => exact safe_announce (hwon idCommunity rfl) rfl

/-- The row is gone, or the request's session is about to delete it. -/
def Deleting (t : Nat) (w : World F B) : Prop := w.db.row = none ∨ DeletionStaged t w

theorem deleting_stable : (atomicity lib simulationId).Stable t (Deleting t) := by
  rintro w w' hdeleting hrely
  rcases hdeleting with hgone | hstaged
  · exact Or.inl (hrely.gone hgone)
  · exact Or.inr (hstaged.kept hrely.tx)

omit [PyFloat F] in
/-- Where the row is gone, all that a session can hold is its deletion. -/
theorem Deleting.tx {w : World F B} (h : Deleting t w) (hinv : Inv w) {tx : Tx F}
    (hown : w.db.own ⟨t, .request⟩ = some tx) : tx.row = none := by
  obtain ⟨htx, howner⟩ := (LocalDb.own_eq_some _ _).mp hown
  rcases h with hgone | ⟨tx', htx', -, hrow⟩
  · rcases hinv.db.tx tx htx with ⟨hrow, -⟩ | ⟨-, ⟨row, hrow, -⟩, -⟩
    · exact hrow
    · rw [hgone] at hrow
      cases hrow
  · obtain rfl := Option.some.inj (htx.symm.trans htx')
    exact hrow

theorem Deleting.commit {w w' : World F B} {choice : Choice} (h : Deleting t w) (hinv : Inv w)
    (hexec : exec choice t (.commitLocal .request) w = some (.ok (), w')) :
    w'.db.row = none := by
  obtain ⟨-, rfl⟩ := Prod.mk.inj (Option.some.inj (exec_ok rfl hexec))
  cases hown : w.db.own ⟨t, .request⟩ with
  | some tx =>
      simp only [LocalDb.commit_of_own hown]
      exact h.tx hinv hown
  | none =>
      simp only [LocalDb.commit_of_not_own hown]
      rcases h with hgone | ⟨tx, htx, howner, -⟩
      · exact hgone
      · rw [(LocalDb.own_eq_some _ _).mpr ⟨htx, howner⟩] at hown
        cases hown

/-- An operation without a precondition, once the row is gone. -/
def afterDeletion : Op F B → Bool
  | .claim .. | .updateRow .. | .insertRow .. | .insertTree .. | .commitLocal _ | .emit _ => false
  | .logAudit _ entry => entry.terminal.isNone
  | _ => true

theorem safe_afterDeletion {p : Act F B α} {w : World F B} (hgone : w.db.row = none)
    (hops : p.AllOps fun o => afterDeletion o = true) :
    (atomicity lib simulationId).Safe t (fun _ _ => True) p w := by
  refine (Safe.of_allOps (d := atomicity lib simulationId) (A := fun w => w.db.row = none)
    (fun h hrely => hrely.gone h) (hops.mono fun o ho w hinv hgone => ?_) hgone).mono
    fun _ _ _ => trivial
  have hpre : Pre t o w := by
    cases o
    case logAudit s entry =>
      intro status hstatus
      have hnone : entry.terminal.isNone = true := ho
      rw [hstatus] at hnone
      cases hnone
    case delete key =>
      cases key with
      | none => trivial
      | some key =>
          cases key with
          | source key => trivial
          | result key => exact hgone
    all_goals trivial
  exact ⟨hpre, fun choice r w' hexec =>
    (DbKept.of_move hinv.db hpre (exec_db hexec)).gone hgone⟩

theorem polite_deleteSimulation (id community : Nat) :
    (atomicity lib simulationId).Polite t (deleteSimulation id community : Act F B Unit) := by
  refine fun w => Safe.bind (safe_perform (d := atomicity lib simulationId) (A := fun _ => True)
    (fun _ _ => trivial) trivial (fun _ _ _ => trivial) fun choice r w w' _ _ _ => ?_)
  cases r with
  | error e => trivial
  | ok row =>
      cases row with
      | none => trivial
      | some row =>
          refine Safe.bind (safe_perform (d := atomicity lib simulationId) (A := fun _ => True)
            (fun _ _ => trivial) trivial (fun _ _ _ => trivial) fun choice r w w' _ _ hexec => ?_)
          cases r with
          | error e => trivial
          | ok u =>
              refine Safe.bind (safe_perform deleting_stable
                ((deleteRow_staged (exec_ok rfl hexec)).imp_left And.right)
                (fun w hinv hdeleting tx hown row hrow => ?_)
                fun choice r w w' hinv hdeleting hexec => ?_)
              · rw [hdeleting.tx hinv hown] at hrow
                cases hrow
              · cases r with
                | error e => trivial
                | ok u =>
                    refine safe_afterDeletion (hdeleting.commit hinv hexec)
                      (.bind (.perform ?_) fun _ => ?_)
                    · rfl
                    · cases row.resultStorageKey with
                      | none => exact .perform rfl
                      | some key => exact .bind (.perform rfl) fun _ => .perform rfl

/-- The entries this is about. -/
def outcomeEntry : Entry F B → Bool
  | .saveSuccess .. | .saveFailure _ | .deleteSimulation _ => true
  | _ => false

theorem safe_entered {e : Entry F B} {w w' : World F B} {p : Act F B Unit}
    (he : outcomeEntry e = true) (hnoTx : NoTx t w)
    (henter : enter lib simulationId e w = some (w', p)) :
    (atomicity lib simulationId).Safe t (fun _ _ => True) p w' := by
  cases e with
  | startSimulation | startSimulationFromCrm | deliver => cases he
  | saveSuccess result path =>
      obtain ⟨rfl, rfl⟩ := Prod.mk.inj (Option.some.inj henter)
      exact safe_saveSuccess hnoTx _ _ _
  | saveFailure errorMessage =>
      obtain ⟨rfl, rfl⟩ := Prod.mk.inj (Option.some.inj henter)
      exact safe_saveFailure hnoTx _ _
  | deleteSimulation community =>
      obtain ⟨rfl, rfl⟩ := Prod.mk.inj (Option.some.inj henter)
      refine polite_answered (fun o ho w _ => ?_) (polite_deleteSimulation _ _) _
      cases o <;> trivial

end Triples

/-! ## Runs -/

/-- A simulation that waits for its outcome: nothing in progress, no tree,
nothing announced. -/
structure Waits [PyFloat F] {lib : Libraries F B L} {simulationId : Nat}
    (c : State lib simulationId) : Prop where
  idle : Idle c
  row : ∃ row, c.world.db.row = some row ∧ row.status = .pending
  created : c.world.db.created = true
  trees : c.world.db.trees = []
  tx : c.world.db.tx = none
  finisher : c.world.db.finisher = none
  audited : c.world.audit.terminals = []
  announced : c.world.finished = []

/-- Runs of the two writers and of deletions. -/
def OutcomeRun [PyFloat F] {lib : Libraries F B L} {simulationId : Nat}
    (c c' : State lib simulationId) : Prop :=
  (service lib simulationId).Reaches
    (fun _ l => ∀ t e, l = .enter t e → outcomeEntry e = true) c c'

structure AllOrNothing (w : World F B) : Prop where
  oneTree : w.db.trees.length ≤ 1
  tree_iff : w.db.trees.length = 1 ↔ ∃ row, w.db.row = some row ∧ row.status = .success
  stored : ∀ row, w.db.row = some row → row.status = .success →
    ∃ key, row.resultStorageKey = some key ∧ (w.storage.results key).isSome = true
  audited : (w.audit.entries.filterMap (·.terminal)).length ≤ 1
  announced : w.finished.length ≤ 1
  committed : ∀ status ∈ w.finished, ∃ t, w.db.finisher = some (t, status)
  agrees : ∀ status ∈ w.finished, ∀ row, w.db.row = some row → row.status = status

theorem Inv.allOrNothing {w : World F B} (h : Inv w) : AllOrNothing w := by
  refine ⟨h.db.trees, ⟨fun hone => h.db.tree_iff.mp ?_, fun hrow => ?_⟩, h.stored, ?_, h.announced,
    h.announcedBy, fun status hmem row hrow => ?_⟩
  · intro hnil
    rw [hnil] at hone
    cases hone
  · exact le_antisymm h.db.trees (List.length_pos_iff.mpr (h.db.tree_iff.mpr hrow))
  · have hlength := h.audited
    rw [AuditLog.terminals, List.length_append] at hlength
    omega
  · obtain ⟨t, ht⟩ := h.announcedBy status hmem
    by_cases hpending : row.status = .pending
    · rw [h.db.unfinished row hrow hpending] at ht
      cases ht
    · obtain ⟨t', ht'⟩ := h.db.finished row hrow hpending
      exact (Prod.mk.inj (Option.some.inj (ht'.symm.trans ht))).2

section Runs

variable [PyFloat F] {lib : Libraries F B L} {simulationId : Nat}

theorem sound_of_waits {c : State lib simulationId} (h : Waits c) :
    (atomicity lib simulationId).Sound c := by
  obtain ⟨row, hrow, hpending⟩ := h.row
  refine ⟨⟨⟨h.created, by simp [h.trees], ?_, fun _ _ _ => h.finisher, ?_, by simp [h.tx]⟩, ?_,
    by simp [h.audited], by simp [h.audited], by simp [h.announced], by simp [h.announced]⟩,
    fun t _ tx htx => ?_, fun t p htask => ?_⟩
  · rw [h.trees]
    refine iff_of_false (fun hne => hne rfl) ?_
    rintro ⟨row', hrow', hsuccess⟩
    obtain rfl := Option.some.inj (hrow.symm.trans hrow')
    rw [hpending] at hsuccess
    cases hsuccess
  · intro row' hrow' houtcome
    obtain rfl := Option.some.inj (hrow.symm.trans hrow')
    exact absurd hpending houtcome
  · intro row' hrow' hsuccess
    obtain rfl := Option.some.inj (hrow.symm.trans hrow')
    rw [hpending] at hsuccess
    cases hsuccess
  · rw [h.tx] at htx
    cases htx
  · rw [h.idle t] at htask
    cases htask

theorem sound_of_run {c c' : State lib simulationId} (h : (atomicity lib simulationId).Sound c)
    (hrun : OutcomeRun c c') : (atomicity lib simulationId).Sound c' :=
  reaches_sound h (fun _ t e _ _ hentry _ hnoTx henter =>
    safe_entered (hentry t e rfl) hnoTx henter) hrun

/-- The finisher is named once. -/
theorem finisher_of_step {c : State lib simulationId}
    {l : System.Label (service lib simulationId)} {db : LocalDb F}
    (h : (atomicity lib simulationId).Sound c) (hstep : DbStep c l db)
    {x : Nat × SimulationStatus} (hx : c.world.db.finisher = some x) : db.finisher = some x := by
  cases hstep with
  | same => exact hx
  | drop held owner => exact hx
  | move task hmove => exact (DbKept.of_move h.inv.db (h.pre task) hmove).finisher x hx

theorem finisher_of_run {c c' : State lib simulationId}
    (h : (atomicity lib simulationId).Sound c) (hrun : OutcomeRun c c')
    {x : Nat × SimulationStatus} (hx : c.world.db.finisher = some x) :
    c'.world.db.finisher = some x := by
  induction hrun with
  | refl => exact hx
  | tail run _ step ih => exact finisher_of_step (sound_of_run h run) (dbStep_of_next step) ih

/-- Success is all or nothing in every state of a run, and an event agrees with
every outcome the run has committed, deleted or not. -/
theorem success_all_or_nothing {c₀ c c' : State lib simulationId} (hwaits : Waits c₀)
    (hrun : OutcomeRun c₀ c) (hlater : OutcomeRun c c') :
    AllOrNothing c'.world ∧ ∀ row, c.world.db.row = some row → row.status ≠ .pending →
      ∀ status ∈ c'.world.finished, status = row.status := by
  have hsound := sound_of_run (sound_of_waits hwaits) hrun
  have hsound' := sound_of_run hsound hlater
  refine ⟨hsound'.inv.allOrNothing, fun row hrow houtcome status hmem => ?_⟩
  obtain ⟨t, ht⟩ := hsound.inv.db.finished row hrow houtcome
  obtain ⟨t', ht'⟩ := hsound'.inv.announcedBy status hmem
  have hsame := (finisher_of_run hsound hlater ht).symm.trans ht'
  exact (Prod.mk.inj (Option.some.inj hsame)).2.symm

end Runs

/-! ## Two writers and a deletion -/

def smallResult : KeySimResult ℚ :=
  { name := "key"
    description := "d"
    consumptionTotal := 1
    energyAllocatedTotal := 1
    energyAllocatedConsumedTotal := 1
    residualVolumeTotal := 0
    surplusTotal := 0
    selfSufficiencyRateTotal := 1
    sharingRateTotal := 1
    iterations := [] }

def start : State smallLib 1 :=
  { world :=
      { smallWorld (some smallRow) 1 "d" with
        files := { series := fun _ => some smallResult, next := 1 } }
    tasks := fun _ => .idle }

theorem start_waits : Waits start :=
  { idle := fun _ => rfl
    row := ⟨smallRow, rfl, rfl⟩
    created := rfl
    trees := rfl
    tx := rfl
    finisher := rfl
    audited := rfl
    announced := rfl }

/-- An entry of the two writers or of a deletion, when the label is one. -/
def outcomeOnly (_ : State smallLib 1) : System.Label (service smallLib 1) → Bool
  | .enter _ e => outcomeEntry e
  | _ => true

/-- A failure that read the PENDING row waits for the success that claimed it
first, then finds nothing to flip; a deletion follows. -/
theorem all_or_nothing_two_writers :
    ∃ c c' : State smallLib 1, OutcomeRun start c ∧ OutcomeRun c c' ∧
      c.world.db.row.any (·.status = .success) = true ∧ c.world.db.trees.length = 1 ∧
      c'.world.db.row = none ∧ c'.world.finished = [.success] ∧ AllOrNothing c'.world ∧
      ∀ row, c.world.db.row = some row → row.status ≠ .pending →
        ∀ status ∈ c'.world.finished, status = row.status := by
  have hrun : ((System.runAll outcomeOnly
      (.enter 0 (Entry.saveSuccess smallResult 0) :: .enter 1 (Entry.saveFailure "late") ::
        (steps 0 2 ++ steps 1 1 ++ steps 0 4 ++ steps 1 1)) start).any fun c =>
      (System.runAll outcomeOnly
        (.enter 2 (Entry.deleteSimulation 3) :: (steps 2 3 ++ steps 0 4)) c).any fun c' =>
          c.world.db.row.any (·.status = .success) && c.world.db.trees.length = 1 &&
            c'.world.db.row.isNone && c'.world.finished = [.success]) = true := by
    decide +kernel
  obtain ⟨c, hc, hrun⟩ := (Option.any_eq_true _ _).mp hrun
  obtain ⟨c', hc', hrun⟩ := (Option.any_eq_true _ _).mp hrun
  simp only [Bool.and_eq_true, decide_eq_true_eq, Option.isNone_iff_eq_none] at hrun
  obtain ⟨⟨⟨hsuccess, htree⟩, hgone⟩, hfinished⟩ := hrun
  have hentries : ∀ (c : State smallLib 1) l, outcomeOnly c l = true →
      ∀ t e, l = .enter t e → outcomeEntry e = true := by
    rintro c l h t e rfl
    exact h
  have hfirst : OutcomeRun start c := (System.reaches_of_runAll hc).mono hentries
  have hlater : OutcomeRun c c' := (System.reaches_of_runAll hc').mono hentries
  have hboth := success_all_or_nothing start_waits hfirst hlater
  exact ⟨c, c', hfirst, hlater, hsuccess, htree, hgone, hfinished, hboth.1, hboth.2⟩

end SimulationKey.Theorems.Atomicity
