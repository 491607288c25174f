import SimulationKey.Backend.Exec

/-!
# What an operation can do

Inversion of `exec`: every proof about runs starts from it and never unfolds an
operation.

* **one component** — an operation changes one component of the world at most
  (`Effect`), each by a few operations only.
* **local database** — `DbMove` has the guards under which each statement takes
  effect.
-/

namespace SimulationKey

open Kit

variable {F B : Type}

/-! ## Transactions -/

namespace LocalDb

variable {db : LocalDb F} {me : SessionId}

/-- A session that is not kept waiting sees the committed row, or holds the
lock and sees its own version. -/
theorem free_cases (hfree : db.locked me = false) :
    (db.tx = none ∧ db.own me = none ∧ db.visible me = db.row) ∨
      ∃ tx, db.tx = some tx ∧ tx.owner = me ∧ db.own me = some tx ∧ db.visible me = tx.row := by
  cases htx : db.tx with
  | none =>
      have hown : db.own me = none := by simp [own, htx]
      exact Or.inl ⟨rfl, hown, by simp [visible, hown]⟩
  | some tx =>
      have howner : tx.owner = me := (not_locked_iff db me).mp hfree tx htx
      have hown : db.own me = some tx := (own_eq_some db me).mpr ⟨htx, howner⟩
      exact Or.inr ⟨tx, rfl, howner, hown, by simp [visible, hown]⟩

theorem commit_of_own {tx : Tx F} (hown : db.own me = some tx) :
    db.commit me =
      { row := tx.row
        created := true
        trees := if tx.row.isNone then [] else db.trees ++ tx.trees
        tx := none
        finisher :=
          if tx.claimed then tx.row.map fun row => (me.task, row.status) else db.finisher } := by
  simp [commit, hown]

theorem commit_of_not_own (hown : db.own me = none) : db.commit me = db := by
  simp [commit, hown]

theorem rollback_of_own {tx : Tx F} (hown : db.own me = some tx) :
    db.rollback me = { db with tx := none } := by
  simp [rollback, hown]

theorem rollback_of_not_own (hown : db.own me = none) : db.rollback me = db := by
  simp [rollback, hown]

theorem rollback_row : (db.rollback me).row = db.row := by
  cases hown : db.own me with
  | none => rw [rollback_of_not_own hown]
  | some tx => rw [rollback_of_own hown]

end LocalDb

/-- The changes an operation of task `t` can make to the local database. -/
inductive DbMove (t : Nat) (db : LocalDb F) : Op F B → LocalDb F → Prop where
  | same (o : Op F B) : DbMove t db o db
  | claim {s : SessionKind} {values : RowValues} {row : SimulationModel}
      (free : db.locked ⟨t, s⟩ = false) (visible : db.visible ⟨t, s⟩ = some row)
      (pending : row.status = .pending) :
      DbMove t db (.claim s values) (db.stage ⟨t, s⟩ (some (row.set values)) true)
  | update {s : SessionKind} {values : RowValues} {row : SimulationModel}
      (sets : values.isEmpty = false) (free : db.locked ⟨t, s⟩ = false)
      (visible : db.visible ⟨t, s⟩ = some row) :
      DbMove t db (.updateRow s values) (db.stage ⟨t, s⟩ (some (row.set values)) false)
  | insert {s : SessionKind} {row : SimulationModel} (fresh : db.created = false)
      (free : db.tx = none) : DbMove t db (.insertRow s row) (db.stage ⟨t, s⟩ (some row) false)
  | delete {s : SessionKind} {row : SimulationModel} (free : db.locked ⟨t, s⟩ = false)
      (visible : db.visible ⟨t, s⟩ = some row) :
      DbMove t db (.deleteRow s) (db.stage ⟨t, s⟩ none false)
  | tree {s : SessionKind} {tx : Tx F} {tree : SimulationKeyResultModel F}
      (own : db.own ⟨t, s⟩ = some tx) : DbMove t db (.insertTree s tree) (db.addTree tx tree)
  | commit (s : SessionKind) : DbMove t db (.commitLocal s) (db.commit ⟨t, s⟩)
  | rollback (s : SessionKind) : DbMove t db (.closeLocal s) (db.rollback ⟨t, s⟩)

/-- A task touches no transaction of another. -/
theorem DbMove.others {t : Nat} {db db' : LocalDb F} {o : Op F B} (h : DbMove t db o db')
    {tx : Tx F} (howner : tx.owner.task ≠ t) : db.tx = some tx ↔ db'.tx = some tx := by
  have hstage : ∀ {s : SessionKind} {row claimed}, db.locked ⟨t, s⟩ = false →
      (db.tx = some tx ↔ (db.stage ⟨t, s⟩ row claimed).tx = some tx) := by
    intro s row claimed hfree
    refine iff_of_false (fun htx => ?_) fun htx => ?_
    · exact howner (congrArg SessionId.task ((LocalDb.not_locked_iff db _).mp hfree tx htx))
    · obtain rfl := Option.some.inj htx
      exact howner rfl
  have hended : ∀ {s : SessionKind} {own : Tx F}, db.own ⟨t, s⟩ = some own →
      (db.tx = some tx ↔ (none : Option (Tx F)) = some tx) := by
    intro s own hown
    obtain ⟨htx, hown⟩ := (LocalDb.own_eq_some db _).mp hown
    refine iff_of_false (fun htx' => ?_) (by simp)
    obtain rfl := Option.some.inj (htx.symm.trans htx')
    exact howner (congrArg SessionId.task hown)
  cases h with
  | same => rfl
  | claim free visible pending => exact hstage free
  | update sets free visible => exact hstage free
  | insert fresh free => exact hstage (by simp [LocalDb.locked, free])
  | delete free visible => exact hstage free
  | @tree s own tree hown =>
      obtain ⟨htx, hown⟩ := (LocalDb.own_eq_some db _).mp hown
      refine iff_of_false (fun htx' => ?_) fun htx' => ?_
      · obtain rfl := Option.some.inj (htx.symm.trans htx')
        exact howner (congrArg SessionId.task hown)
      · obtain rfl := Option.some.inj htx'
        exact howner (congrArg SessionId.task hown)
  | commit s =>
      cases hown : db.own ⟨t, s⟩ with
      | none => rw [LocalDb.commit_of_not_own hown]
      | some own =>
          rw [LocalDb.commit_of_own hown]
          exact hended hown
  | rollback s =>
      cases hown : db.own ⟨t, s⟩ with
      | none => rw [LocalDb.rollback_of_not_own hown]
      | some own =>
          rw [LocalDb.rollback_of_own hown]
          exact hended hown

/-- Only a commit of its transaction changes the committed row. -/
theorem DbMove.row {t : Nat} {db db' : LocalDb F} {o : Op F B} (h : DbMove t db o db') :
    db'.row = db.row ∨
      ∃ s tx, o = .commitLocal s ∧ db.own ⟨t, s⟩ = some tx ∧ db'.row = tx.row := by
  cases h with
  | same | claim | update | insert | delete | tree => exact Or.inl rfl
  | rollback s => exact Or.inl db.rollback_row
  | commit s =>
      cases hown : db.own ⟨t, s⟩ with
      | none =>
          rw [LocalDb.commit_of_not_own hown]
          exact Or.inl rfl
      | some tx =>
          rw [LocalDb.commit_of_own hown]
          exact Or.inr ⟨s, tx, rfl, hown, rfl⟩

/-- Operations of the local database that can change it. -/
def Op.writesDb : Op F B → Bool
  | claim .. | updateRow .. | insertRow .. | deleteRow _ | insertTree .. | commitLocal _
  | closeLocal _ => true
  | _ => false

theorem DbMove.eq_of_not_writesDb {t : Nat} {db db' : LocalDb F} {o : Op F B}
    (h : DbMove t db o db') (ho : o.writesDb = false) : db' = db := by
  cases h with
  | same => rfl
  | claim | update | insert | delete | tree | commit | rollback => cases ho

/-! ## The other components -/

inductive AuditMove (t : Nat) (log : AuditLog) : Op F B → AuditLog → Prop where
  | stage (s : SessionKind) (entry : AuditEntry) :
      AuditMove t log (.logAudit s entry) (log.stage ⟨t, s⟩ entry)
  | commit (s : SessionKind) : AuditMove t log (.commitCrm s) (log.commit ⟨t, s⟩)
  | rollback (s : SessionKind) : AuditMove t log (.closeCrm s) (log.rollback ⟨t, s⟩)

inductive StoreMove (store : ObjectStore F B) : Op F B → ObjectStore F B → Prop where
  | source (key : SourceKey) (content : B) :
      StoreMove store (.upload key content) (store.putSource key content)
  | result (key : ResultKey) (path : Nat) (series : KeySimResult F) :
      StoreMove store (.uploadFile key path) (store.putResult key series)
  | delete (key : Option ObjectKey) : StoreMove store (.delete key) (store.delete key)

inductive NatsMove (t : Nat) (nats : MessageStream) : Op F B → MessageStream → Prop where
  | publish (subject : String) (event : Event) :
      NatsMove t nats (.publish subject event) (nats.publish subject event)
  | ack : NatsMove t nats .ack { nats with replies := nats.replies ++ [(t, .ack)] }
  | nak : NatsMove t nats .nak { nats with replies := nats.replies ++ [(t, .nak)] }

/-- The change of the world by an operation of task `t`. -/
inductive Effect (t : Nat) (w : World F B) : Op F B → World F B → Prop where
  | none (o : Op F B) : Effect t w o w
  | db {o : Op F B} {db : LocalDb F} (h : DbMove t w.db o db) : Effect t w o { w with db := db }
  | audit {o : Op F B} {log : AuditLog} (h : AuditMove t w.audit o log) :
      Effect t w o { w with audit := log }
  | storage {o : Op F B} {store : ObjectStore F B} (h : StoreMove w.storage o store) :
      Effect t w o { w with storage := store }
  | nats {o : Op F B} {nats : MessageStream} (h : NatsMove t w.nats o nats) :
      Effect t w o { w with nats := nats }
  | files (o : Op F B) (files : TempFiles F) : Effect t w o { w with files := files }
  | finished (hint : SimulationStatus) :
      Effect t w (.emit hint) { w with finished := w.finished ++ [hint] }

theorem Effect.toDb {t : Nat} {w w' : World F B} {o : Op F B} (h : Effect t w o w') :
    DbMove t w.db o w'.db := by
  cases h with
  | db h => exact h
  | none | audit | storage | nats | files | finished => exact .same _

/-! ## Outcomes of single statements -/

section Statements

variable {db db' : LocalDb F} {t : Nat} {s : SessionKind}

/-- A claim that flips the row, or that finds nothing to flip. -/
theorem claim_cases {values : RowValues} {r : Except Exn Nat}
    (h : db.claim ⟨t, s⟩ values = some (r, db')) :
    (∃ row, r = .ok 1 ∧ db.locked ⟨t, s⟩ = false ∧ db.visible ⟨t, s⟩ = some row ∧
        row.status = .pending ∧ db' = db.stage ⟨t, s⟩ (some (row.set values)) true) ∨
      (r = .ok 0 ∧ db' = db ∧
        ((db.locked ⟨t, s⟩ = true ∧ ∀ row, db.row = some row → row.status ≠ .pending) ∨
          db.locked ⟨t, s⟩ = false ∧
            ∀ row, db.visible ⟨t, s⟩ = some row → row.status ≠ .pending)) := by
  unfold LocalDb.claim at h
  cases hlocked : db.locked ⟨t, s⟩ with
  | true =>
      right
      cases hrow : db.row with
      | none =>
          simp only [hlocked, hrow, if_true, Option.some.injEq, Prod.mk.injEq] at h
          obtain ⟨rfl, rfl⟩ := h
          simp
      | some row =>
          by_cases hpending : row.status = .pending
          · simp [hlocked, hrow, hpending] at h
          · simp only [hlocked, hrow, hpending, if_true, if_false, Option.some.injEq,
              Prod.mk.injEq] at h
            obtain ⟨rfl, rfl⟩ := h
            simp [hpending]
  | false =>
      cases hvisible : db.visible ⟨t, s⟩ with
      | none =>
          right
          simp only [hlocked, hvisible, Bool.false_eq_true, if_false, Option.some.injEq,
            Prod.mk.injEq] at h
          obtain ⟨rfl, rfl⟩ := h
          simp
      | some row =>
          by_cases hpending : row.status = .pending
          · left
            simp only [hlocked, hvisible, hpending, Bool.false_eq_true, if_true, if_false,
              Option.some.injEq, Prod.mk.injEq] at h
            obtain ⟨rfl, rfl⟩ := h
            exact ⟨row, rfl, rfl, rfl, hpending, rfl⟩
          · right
            simp only [hlocked, hvisible, hpending, Bool.false_eq_true, if_false,
              Option.some.injEq, Prod.mk.injEq] at h
            obtain ⟨rfl, rfl⟩ := h
            simp [hpending]

/-- A statement on the row by its id acts on what its session sees, or finds
no row to act on. -/
theorem onRow_cases {α : Type} {act : Option SimulationModel → Except Exn α × LocalDb F}
    {x : Except Exn α × LocalDb F} (h : db.onRow ⟨t, s⟩ act = some x) :
    (db.locked ⟨t, s⟩ = false ∧ x = act (db.visible ⟨t, s⟩)) ∨
      (db.locked ⟨t, s⟩ = true ∧ db.row = none ∧ x = act none) := by
  unfold LocalDb.onRow at h
  cases hlocked : db.locked ⟨t, s⟩ with
  | true =>
      cases hrow : db.row with
      | none =>
          simp only [hlocked, hrow, if_true, Option.some.injEq] at h
          exact Or.inr ⟨rfl, rfl, h.symm⟩
      | some row => simp [hlocked, hrow] at h
  | false =>
      simp only [hlocked, Bool.false_eq_true, if_false, Option.some.injEq] at h
      exact Or.inl ⟨rfl, h.symm⟩

end Statements

/-! ## Execution -/

section Execution

variable [PyFloat F] {choice : Choice} {t : Nat} {o : Op F B} {w w' : World F B}

omit [PyFloat F] in
/-- The effect of a statement on the local database. -/
theorem effect_of_statement {α : Type} {res : Option (Except Exn α × LocalDb F)}
    {r : Except Exn α} (hmove : ∀ x, res = some x → DbMove t w.db o x.2)
    (h : (res.map fun x => (x.1, { w with db := x.2 })) = some (r, w')) : Effect t w o w' := by
  obtain ⟨x, hx, heq⟩ := Option.map_eq_some_iff.mp h
  obtain ⟨-, rfl⟩ := Prod.mk.inj heq
  exact .db (hmove x hx)

theorem answer_effect {r : Except Exn o.Resp} (h : answer t o w = some (r, w')) :
    Effect t w o w' := by
  have hworld : ∀ {r₀ : Except Exn o.Resp} {w₀ : World F B},
      some (r₀, w₀) = some (r, w') → Effect t w o w₀ → Effect t w o w' := by
    intro r₀ w₀ heq heffect
    obtain ⟨-, rfl⟩ := Prod.mk.inj (Option.some.inj heq)
    exact heffect
  cases o with
  | getRow s | getSimulationRow s idCommunity | getAllocationKey idKey idCommunity
  | sharingOperationExists idCommunity op | stopHeartbeat | readUpload content =>
      exact hworld h (.none _)
  | claim s values =>
      refine effect_of_statement (fun x hx => ?_) h
      rcases claim_cases (r := x.1) hx with ⟨row, -, hfree, hvisible, hpending, hdb⟩ | ⟨-, hdb, -⟩
      · rw [hdb]
        exact .claim hfree hvisible hpending
      · rw [hdb]
        exact .same _
  | updateRow s values =>
      refine effect_of_statement (fun x hx => ?_) h
      unfold LocalDb.update at hx
      cases hsets : values.isEmpty with
      | true =>
          simp only [hsets, if_true, Option.some.injEq] at hx
          rw [← hx]
          exact .same _
      | false =>
          simp only [hsets, Bool.false_eq_true, if_false] at hx
          rcases onRow_cases hx with ⟨hfree, rfl⟩ | ⟨-, -, rfl⟩
          · cases hvisible : w.db.visible ⟨t, s⟩ with
            | none => exact .same _
            | some row => exact .update hsets hfree hvisible
          · exact .same _
  | insertRow s row =>
      refine effect_of_statement (fun x hx => ?_) h
      unfold LocalDb.insert at hx
      split_ifs at hx with hused hfits
      · rw [← Option.some.inj hx]
        exact .same _
      · simp only [Bool.or_eq_true, Option.isSome_iff_ne_none, not_or, Bool.not_eq_true,
          not_not] at hused
        rw [← Option.some.inj hx]
        exact .insert hused.1 hused.2
      · rw [← Option.some.inj hx]
        exact .same _
  | deleteRow s =>
      refine effect_of_statement (fun x hx => ?_) h
      rcases onRow_cases hx with ⟨hfree, rfl⟩ | ⟨-, -, rfl⟩
      · cases hvisible : w.db.visible ⟨t, s⟩ with
        | none => exact .same _
        | some row => exact .delete hfree hvisible
      · exact .same _
  | insertTree s tree =>
      refine effect_of_statement (fun x hx => ?_) h
      unfold LocalDb.insertTree at hx
      cases hown : w.db.own ⟨t, s⟩ with
      | none =>
          simp only [hown, Option.some.injEq] at hx
          rw [← hx]
          exact .same _
      | some tx =>
          simp only [hown] at hx
          split_ifs at hx with hfits
          · rw [← Option.some.inj hx]
            exact .tree hown
          · rw [← Option.some.inj hx]
            exact .same _
  | commitLocal s => exact hworld h (.db (.commit s))
  | closeLocal s => exact hworld h (.db (.rollback s))
  | summarize idCommunity op periodStart periodEnd
  | fetchRows idCommunity op periodStart periodEnd =>
      simp only [answer] at h
      split at h
      · exact hworld h (.none _)
      · exact hworld h (.none _)
  | logAudit s entry => exact hworld h (.audit (.stage s entry))
  | commitCrm s => exact hworld h (.audit (.commit s))
  | closeCrm s => exact hworld h (.audit (.rollback s))
  | upload key content => exact hworld h (.storage (.source key content))
  | uploadFile key path =>
      simp only [answer] at h
      split at h
      · exact hworld h (.none _)
      · exact hworld h (.storage (.result key path _))
  | download key =>
      simp only [answer] at h
      split at h
      · exact hworld h (.none _)
      · exact hworld h (.none _)
  | delete key => exact hworld h (.storage (.delete key))
  | publish subject event => exact hworld h (.nats (.publish subject event))
  | ack => exact hworld h (.nats .ack)
  | nak => exact hworld h (.nats .nak)
  | emit hint => exact hworld h (.finished hint)
  | runSimulation key raw =>
      simp only [answer] at h
      split at h
      · exact hworld h (.none _)
      · exact hworld h (.files _ _)
  | remove path => exact hworld h (.files _ _)

/-- Whatever its caller is told, an operation has its effect or none. -/
theorem exec_effect {r : Except Exn o.Resp} (h : exec choice t o w = some (r, w')) :
    Effect t w o w' := by
  cases choice with
  | ok => exact answer_effect h
  | fail e =>
      simp only [exec] at h
      split_ifs at h
      obtain ⟨-, rfl⟩ := Prod.mk.inj (Option.some.inj h)
      exact .none _
  | lost e =>
      simp only [exec] at h
      split_ifs at h
      obtain ⟨x, hx, heq⟩ := Option.map_eq_some_iff.mp h
      obtain ⟨-, rfl⟩ := Prod.mk.inj heq
      exact answer_effect hx
  | swallowed =>
      obtain ⟨a, -, heq⟩ := Option.map_eq_some_iff.mp h
      obtain ⟨-, rfl⟩ := Prod.mk.inj heq
      exact .none _

theorem exec_db {r : Except Exn o.Resp} (h : exec choice t o w = some (r, w')) :
    DbMove t w.db o w'.db :=
  (exec_effect h).toDb

/-- A session that has closed has no transaction. -/
theorem exec_closeLocal {s : SessionKind} {r : Except Exn Unit}
    (h : exec choice t (.closeLocal s) w = some (r, w')) :
    w' = { w with db := w.db.rollback ⟨t, s⟩ } := by
  cases choice with
  | ok => exact (Prod.mk.inj (Option.some.inj h)).2.symm
  | fail e => simp [exec, Op.closes] at h
  | lost e =>
      simp only [exec] at h
      split_ifs at h
      exact (Prod.mk.inj (Option.some.inj h)).2.symm
  | swallowed => simp [exec, Op.swallows] at h

omit [PyFloat F] in
theorem ok_of_mapError {ε ε' α : Type} {x : Except ε α} {f : ε → ε'} {a : α}
    (h : x.mapError f = .ok a) : x = .ok a := by
  cases x with
  | ok b => exact congrArg Except.ok (Except.ok.inj h)
  | error e => cases h

/-- An operation that swallows nothing and reports no exception has gone
through. -/
theorem exec_ok {a : o.Resp} (hloud : o.swallows = none)
    (h : exec choice t o w = some (.ok a, w')) : answer t o w = some (.ok a, w') := by
  cases choice with
  | ok => exact h
  | fail e =>
      simp only [exec] at h
      split_ifs at h
      cases h
  | lost e =>
      simp only [exec] at h
      split_ifs at h
      obtain ⟨x, -, heq⟩ := Option.map_eq_some_iff.mp h
      cases heq
  | swallowed => simp [exec, hloud] at h

/-- An operation that does not raise after its effect has gone through, or had none. -/
theorem exec_punctual {r : Except Exn o.Resp} (hloud : o.swallows = none)
    (hpunctual : choice.late = false) (h : exec choice t o w = some (r, w')) :
    w' = w ∨ answer t o w = some (r, w') := by
  cases choice with
  | ok => exact Or.inr h
  | fail e =>
      simp only [exec] at h
      split_ifs at h
      exact Or.inl (Prod.mk.inj (Option.some.inj h)).2.symm
  | lost e => cases hpunctual
  | swallowed => simp [exec, hloud] at h

end Execution

end SimulationKey
