import SimulationKey.Worker.Awaited
import SimulationKey.Worker.LastSave
import SimulationKey.Theorems.Settlement

/-!
# Retries are bounded

The deliveries of one message, each with its count, whatever becomes of each.

Below the delivery limit a delivery may solve; from the limit on the handler
awaits nothing that reads the key, the readings or the upload, and no solve. A
`save_failure` that returns is the last thing `_process` does
(`savesLast_process`): an ack follows, unless the handler is cut off or the ack
or the heartbeat's end raises. An outcome is never touched by a delivery.
-/

namespace SimulationKey.Theorems.Retries

open Kit Kit.Prog Kit.Discipline Settlement

variable {F B L α β : Type}

/-! ## The discipline of deliveries -/

/-- A transaction is open only on a PENDING row. -/
structure Inv (w : World F B) : Prop where
  created : w.db.created = true
  tx : ∀ tx, w.db.tx = some tx → ∃ row, w.db.row = some row ∧ row.status = .pending

/-- The committed row has its outcome, and these trees. -/
def Outcome (row : SimulationModel) (trees : List (SimulationKeyResultModel F))
    (db : LocalDb F) : Prop :=
  row.status ≠ .pending ∧ db.row = some row ∧ db.trees = trees

structure Rely (t : Nat) (w w' : World F B) : Prop where
  created : w.db.created = true → w'.db.created = true
  tx : TxKept t w w'
  outcome : ∀ row trees, Outcome row trees w.db → Outcome row trees w'.db

/-- A session is opened by a task that holds no transaction; no row is inserted,
flushed or deleted. -/
def Pre (t : Nat) : Op F B → World F B → Prop
  | .getRow _, w => NoTx t w
  | .insertRow .., _ | .updateRow .., _ | .deleteRow _, _ => False
  | _, _ => True

theorem Rely.of_db {t : Nat} {w w' : World F B} (h : w'.db = w.db) : Rely t w w' :=
  { created := fun hcreated => h ▸ hcreated
    tx := fun tx _ => by rw [h]
    outcome := fun row trees houtcome => h ▸ houtcome }

/-- What a move keeps of the local database. -/
structure DbKept (db db' : LocalDb F) : Prop where
  created : db'.created = true
  tx : ∀ tx, db'.tx = some tx → ∃ row, db'.row = some row ∧ row.status = .pending
  outcome : ∀ row trees, Outcome row trees db → Outcome row trees db'

theorem DbKept.refl {w : World F B} (h : Inv w) : DbKept w.db w.db :=
  ⟨h.created, h.tx, fun _ _ houtcome => houtcome⟩

theorem DbKept.drop {w : World F B} (h : Inv w) : DbKept w.db { w.db with tx := none } :=
  ⟨h.created, fun _ htx => (by cases htx), fun _ _ houtcome => houtcome⟩

theorem DbKept.of_move {w : World F B} {t : Nat} {o : Op F B} {db : LocalDb F} (h : Inv w)
    (hpre : Pre t o w) (hmove : DbMove t w.db o db) : DbKept w.db db := by
  cases hmove with
  | same => exact .refl h
  | update | insert | delete => exact hpre.elim
  | @claim s values row free visible pending =>
      refine ⟨h.created, fun _ _ => ?_, fun _ _ houtcome => houtcome⟩
      rcases LocalDb.free_cases free with ⟨-, -, hsame⟩ | ⟨tx, htx, -, -, -⟩
      · exact ⟨row, hsame ▸ visible, pending⟩
      · exact h.tx tx htx
  | @tree s tx tree own =>
      exact ⟨h.created, fun _ _ => h.tx tx ((LocalDb.own_eq_some _ _).mp own).1,
        fun _ _ houtcome => houtcome⟩
  | commit s =>
      cases hown : w.db.own ⟨t, s⟩ with
      | none =>
          rw [LocalDb.commit_of_not_own hown]
          exact .refl h
      | some tx =>
          rw [LocalDb.commit_of_own hown]
          refine ⟨rfl, fun _ htx => (by cases htx), fun row trees houtcome => ?_⟩
          -- the row it was open on was PENDING
          obtain ⟨row', hrow', hpending⟩ := h.tx tx ((LocalDb.own_eq_some _ _).mp hown).1
          obtain rfl := Option.some.inj (hrow'.symm.trans houtcome.2.1)
          exact absurd hpending houtcome.1
  | rollback s =>
      cases hown : w.db.own ⟨t, s⟩ with
      | none =>
          rw [LocalDb.rollback_of_not_own hown]
          exact .refl h
      | some tx =>
          rw [LocalDb.rollback_of_own hown]
          exact .drop h

section Discipline

variable [PyFloat F] (lib : Libraries F B L) (simulationId : Nat)

theorem exec_sound {choice : Choice} {t : Nat} {o : Op F B} {w w' : World F B}
    {r : Except Exn o.Resp} (h : Inv w) (hpre : Pre t o w)
    (hexec : exec choice t o w = some (r, w')) : Inv w' ∧ ∀ t', t' ≠ t → Rely t' w w' := by
  have hmove := exec_db hexec
  have hkept := DbKept.of_move h hpre hmove
  refine ⟨⟨hkept.created, hkept.tx⟩, fun t' hne => ⟨fun _ => hkept.created, fun tx howner => ?_,
    hkept.outcome⟩⟩
  exact hmove.others (by rw [howner]; exact hne)

omit [PyFloat F] in
theorem abort_sound {t : Nat} {w : World F B} (h : Inv w) :
    Inv (w.abort t) ∧ ∀ t', t' ≠ t → Rely t' w (w.abort t) := by
  have hkept : DbKept w.db (w.abort t).db := by
    rcases World.abort_db t w with hsame | ⟨tx, -, -, hdrop⟩
    · rw [hsame]
      exact .refl h
    · rw [hdrop]
      exact .drop h
  refine ⟨⟨hkept.created, hkept.tx⟩, fun t' hne => ⟨fun _ => hkept.created, fun tx howner => ?_,
    hkept.outcome⟩⟩
  exact World.abort_others (by rw [howner]; exact hne)

def deliveries : Discipline (service lib simulationId) where
  inv := Inv
  rely := Rely
  unstarted := NoTx
  pre := Pre
  unstarted_rely := fun h hrely => h.kept hrely.tx
  rely_refl := fun _ _ => Rely.of_db rfl
  rely_trans := fun h h' =>
    ⟨h'.created ∘ h.created, fun tx howner => (h.tx tx howner).trans (h'.tx tx howner),
      fun row trees => h'.outcome row trees ∘ h.outcome row trees⟩
  exec_sound := exec_sound
  enter_sound := fun h henter => by
    obtain ⟨started, rfl⟩ := enter_world henter
    exact ⟨⟨h.created, h.tx⟩, fun _ => Rely.of_db rfl⟩
  abort_sound := abort_sound
  event_sound := fun h => ⟨⟨h.created, h.tx⟩, fun _ => Rely.of_db rfl⟩

end Discipline

/-! ## Sessions -/

section Sessions

variable [PyFloat F] {lib : Libraries F B L} {simulationId t : Nat}

theorem base_stable : (deliveries lib simulationId).Stable t (Base t) :=
  fun h hrely => h.kept hrely.created hrely.tx

theorem mine_stable : (deliveries lib simulationId).Stable t (Mine t) :=
  fun h hrely => h.kept hrely.created hrely.tx

/-- A session of its own, once opened. -/
def withinOwn : Op F B → Bool
  | .claim .own _ | .insertTree .own _ | .commitLocal .own => true
  | .getRow _ => false
  | o => !o.writesDb

omit [PyFloat F] in
theorem withinOwn_pre {o : Op F B} (ho : withinOwn o = true) (w : World F B) : Pre t o w := by
  cases o <;> trivial

omit [PyFloat F] in
theorem mine_of_move {w : World F B} {o : Op F B} {db : LocalDb F} (h : Mine t w)
    (ho : withinOwn o = true) (hmove : DbMove t w.db o db) : Mine t { w with db := db } := by
  have hstaged : ∀ {version claimed}, Mine t { w with db := w.db.stage ⟨t, .own⟩ version claimed } :=
    ⟨h.created, fun tx htx _ => by obtain rfl := Option.some.inj htx; rfl⟩
  cases hmove with
  | same => exact h
  | @claim s => cases s <;> first | exact hstaged | cases ho
  | @tree s tx tree own =>
      refine ⟨h.created, fun tx' htx' howner => ?_⟩
      obtain rfl := Option.some.inj htx'
      exact h.owner tx ((LocalDb.own_eq_some _ _).mp own).1 howner
  | commit s =>
      cases hown : w.db.own ⟨t, s⟩ with
      | none =>
          rw [LocalDb.commit_of_not_own hown]
          exact h
      | some tx =>
          rw [LocalDb.commit_of_own hown]
          exact ⟨rfl, fun _ htx => by cases htx⟩
  | update | insert | delete | rollback => cases ho

theorem mine_exec {choice : Choice} {o : Op F B} {w w' : World F B} {r : Except Exn o.Resp}
    (h : Mine t w) (ho : withinOwn o = true) (hexec : exec choice t o w = some (r, w')) :
    Mine t w' :=
  have hmine := mine_of_move h ho (exec_db hexec)
  ⟨hmine.created, hmine.owner⟩

theorem base_exec {choice : Choice} {o : Op F B} {w w' : World F B} {r : Except Exn o.Resp}
    (h : Base t w) (ho : o.writesDb = false) (hexec : exec choice t o w = some (r, w')) :
    Base t w' :=
  h.of_db ((exec_db hexec).eq_of_not_writesDb ho)

/-- A session that begins by reading the row. -/
theorem yields_session {next : Except Exn (Option SimulationModel) → Act F B α}
    (hnext : ∀ r, (next r).AllOps fun o => withinOwn o = true) :
    (deliveries lib simulationId).Yields t (Base t)
      (withLocalSession .own (.op (.getRow .own) next)) fun _ _ => True := by
  have hbody : ∀ w, Base t w → (deliveries lib simulationId).Safe t (fun _ w => Mine t w)
      (.op (.getRow .own) next) w := by
    intro w hw w' hrely hinv
    have hbase : Base t w' := base_stable hw hrely
    refine ⟨hbase.noTx, fun choice r w'' hexec => ?_⟩
    exact Safe.of_allOps mine_stable ((hnext r).mono fun o ho w _ hmine =>
      ⟨withinOwn_pre ho w, fun choice r w' hexec => mine_exec hmine ho hexec⟩)
      (base_exec hbase rfl hexec).mine
  intro w hw
  refine Safe.ensuring ((hbody w hw).mono fun outcome w hmine => ?_)
  refine safe_perform (d := deliveries lib simulationId) mine_stable hmine (fun _ _ _ => trivial)
    fun choice r w' w'' _ hmine hexec => ?_
  obtain rfl := exec_closeLocal hexec
  cases r with
  | ok u => exact ⟨hmine.close, fun _ _ => trivial⟩
  | error e => exact ⟨hmine.close, fun _ _ => trivial⟩

/-- Operations outside the local database. -/
theorem yields_outside {p : Act F B α} (hops : p.AllOps fun o => o.writesDb = false ∧ ∀ w, Pre t o w) :
    (deliveries lib simulationId).Yields t (Base t) p fun _ _ => True :=
  .of_allOps base_stable (hops.mono fun _ ho w _ hbase =>
    ⟨ho.2 w, fun _ _ _ hexec => base_exec hbase ho.1 hexec⟩) fun _ _ _ => trivial

theorem yields_recorded {values : SimulationModel → RowValues}
    {rest : SimulationModel → Act F B Unit} {id : Nat} {payload : AuditPayload}
    {hint : SimulationStatus} (hrest : ∀ row, (rest row).AllOps fun o => withinOwn o = true) :
    (deliveries lib simulationId).Yields t (Base t)
      (claimAndCommit values rest >>= fun
        | none => pure ()
        | some idCommunity => announce id idCommunity payload hint) fun _ _ => True := by
  refine (yields_session fun r => ?_).next fun committed => ?_
  · rcases r with e | _ | row
    · trivial
    · trivial
    · refine .bind (.perform rfl) fun rowcount => ?_
      by_cases hnone : rowcount = 0
      · simp only [hnone, if_true]
        trivial
      · simp only [hnone, if_false]
        exact .bind (hrest row) fun _ => .bind (.perform rfl) fun _ => trivial
  · cases committed with
    | none => exact .pure fun _ _ => trivial
    | some idCommunity =>
        exact yields_outside (.bind (.ensuring (.bind (.perform ⟨rfl, fun _ => trivial⟩)
          fun _ => .perform ⟨rfl, fun _ => trivial⟩) (.perform ⟨rfl, fun _ => trivial⟩))
          fun _ => .perform ⟨rfl, fun _ => trivial⟩)

theorem yields_saveFailure (id : Nat) (errorMessage : String) :
    (deliveries lib simulationId).Yields t (Base t)
      (saveFailure id errorMessage) fun _ _ => True :=
  yields_recorded fun _ => trivial

theorem handles : Handles (deliveries lib simulationId) simulationId t (Base t)
    (fun _ _ => True) (fun _ => True) (fun _ _ => True) where
  routine o ho := yields_outside (.perform (by cases o <;> first | exact ⟨rfl, fun _ => trivial⟩ | cases ho))
  snapshot := yields_session fun _ => trivial
  failure m _ := yields_saveFailure simulationId m
  success result path := yields_recorded fun _ => .bind (.perform rfl) fun _ => .perform rfl
  download row key _ := by
    refine Yields.mono (K := fun _ _ => True) ?_ fun _ _ _ _ _ => trivial
    refine (Yields.tryCatch ((yields_outside (p := await (.download key))
      (.perform ⟨rfl, fun _ => trivial⟩)).next fun content => .pure fun _ _ => trivial)
      fun e => ?_).knowing .always
    cases e with
    | objectNotFound text =>
        exact (yields_saveFailure simulationId _).next fun _ => .pure fun _ _ => trivial
    | _ => exact .raise _
  seen _ := .always
  saved := .always
  exit _ := .always
  gone _ _ := trivial
  settled _ _ _ _ := trivial
  exit_saved _ _ _ _ := trivial
  exit_without _ _ _ _ _ := trivial

theorem safe_handleMessage {w : World F B} (hw : Base t w) (delivered : Option Nat) :
    (deliveries lib simulationId).Safe t (fun _ _ => True)
      (handleMessage lib simulationId delivered) w := by
  have houtside : ∀ {p : Act F B Unit} {w : World F B}, Base t w →
      (p.AllOps fun o => o.writesDb = false ∧ ∀ w, Pre t o w) →
        (deliveries lib simulationId).Safe t (fun _ _ => True) p w :=
    fun hw hops => (yields_outside hops _ hw).mono fun _ _ _ => trivial
  refine Safe.andThen (((handles.process lib delivered).ensuring (fun _ => .always)
    (handles.routine .stopHeartbeat rfl) w hw).mono fun r w hr => ?_)
  have hunhandled : (deliveries lib simulationId).Safe t (fun _ _ => True)
      (saveFailure simulationId "unhandled_worker_error" >>= fun _ => await .ack) w :=
    (((yields_saveFailure simulationId _).next fun _ => yields_outside (p := await .ack)
      (.perform ⟨rfl, fun _ => trivial⟩)) w hr.1).mono fun _ _ _ => trivial
  cases r with
  | ok storageKey =>
      refine houtside hr.1 (.bind (.perform ⟨rfl, fun _ => trivial⟩) fun _ => ?_)
      cases storageKey with
      | none => trivial
      | some key => exact .perform ⟨rfl, fun _ => trivial⟩
  | error e =>
      cases e with
      | cancelled => trivial
      | transientError text => exact houtside hr.1 (.perform ⟨rfl, fun _ => trivial⟩)
      | _ => exact hunhandled

end Sessions

/-! ## Runs of deliveries -/

section Runs

variable [PyFloat F] {lib : Libraries F B L} {simulationId : Nat}

/-- The deliveries of the message, each with its count. -/
def counts (h : List (System.Happening (service lib simulationId))) : List Nat :=
  h.filterMap fun
    | .entered _ (.deliver (some n)) => some n
    | _ => none

/-- Only deliveries with a readable count are handled. -/
def delivery (_ : State lib simulationId) : System.Label (service lib simulationId) → Prop
  | .enter _ (.deliver (some _)) => True
  | .enter _ _ => False
  | _ => True

theorem safe_entered {c : State lib simulationId} {t : Nat} {e : Entry F B} {w : World F B}
    {p : Act F B Unit} (hallowed : delivery c (.enter t e)) (hinv : Inv c.world)
    (hnoTx : NoTx t c.world) (henter : enter lib simulationId e c.world = some (w, p)) :
    (deliveries lib simulationId).Safe t (fun _ _ => True) p w := by
  cases e with
  | deliver delivered =>
      simp only [enter] at henter
      split_ifs at henter
      obtain ⟨rfl, rfl⟩ := Prod.mk.inj (Option.some.inj henter)
      exact safe_handleMessage ⟨hinv.created, hnoTx⟩ delivered
  | startSimulation | startSimulationFromCrm | deleteSimulation | saveSuccess | saveFailure =>
      exact hallowed.elim

theorem sound_of_deliveries {c : State lib simulationId} (hbegins : Begins c)
    (hstored : 0 < c.world.nats.stored) : (deliveries lib simulationId).Sound c := by
  have hnone : ∀ tx, c.world.db.tx ≠ some tx := fun tx htx => by
    rw [hbegins.tx] at htx
    cases htx
  refine ⟨⟨hbegins.published hstored, fun tx htx => absurd htx (hnone tx)⟩,
    fun t _ tx htx => absurd htx (hnone tx), fun t p htask => ?_⟩
  rw [hbegins.idle t] at htask
  cases htask

theorem sound_of_runs {c c' : State lib simulationId}
    {h : List (System.Happening (service lib simulationId))} (hbegins : Begins c)
    (hstored : 0 < c.world.nats.stored)
    (hrun : (service lib simulationId).Runs (fun _ => delivery) c h c') :
    (deliveries lib simulationId).Sound c' := by
  refine reaches_sound (sound_of_deliveries hbegins hstored) (fun c t e w p hallowed => ?_)
    hrun.reaches
  obtain ⟨_, ok⟩ := hallowed
  exact safe_entered ok

/-- What the deliveries rely on holds on through their runs. -/
theorem outcome_of_run {c c' : State lib simulationId}
    {h : List (System.Happening (service lib simulationId))}
    (hsound : (deliveries lib simulationId).Sound c)
    (hrun : (service lib simulationId).Runs (fun _ => delivery) c h c') {row : SimulationModel}
    {trees : List (SimulationKeyResultModel F)} (houtcome : Outcome row trees c.world.db) :
    Outcome row trees c'.world.db :=
  hsound.keeps (A := fun w : World F B => Outcome row trees w.db) (fun _ _ _ h hrely => hrely.outcome _ _ h)
    (fun _ _ _ _ _ ⟨_, ok⟩ hinv hnoTx henter => safe_entered ok hinv hnoTx henter)
    hrun.reaches houtcome

/-! ## Solves -/

/-- What reads the key, the readings or the upload, and a solve. -/
def gathers : Op F B → Bool
  | .getAllocationKey .. | .sharingOperationExists .. | .summarize .. | .fetchRows ..
  | .download _ | .readUpload _ | .runSimulation .. => true
  | _ => false

omit [PyFloat F] in
theorem gathers_saveFailure (id : Nat) (m : String) :
    (saveFailure id m : Act F B Unit).AllOps fun o => gathers o = false := by
  refine (records_saveFailure id m).mono fun o h => ?_
  cases o <;> first | rfl | cases h

/-- From the limit on, a delivery only marks the row. -/
theorem gathers_handleMessage {count : Nat} (hcount : maxDeliveries ≤ count) :
    (handleMessage lib simulationId (some count)).AllOps fun o => gathers o = false := by
  refine .andThen (.ensuring (.bind (.ensuring (.perform rfl) (.perform rfl)) fun snapshot => ?_)
    (.perform rfl)) fun outcome => ?_
  · cases snapshot with
    | none => trivial
    | some row =>
        by_cases hstatus : row.status = .pending
        · simp only [hstatus, ne_eq, not_true_eq_false, if_false, Option.any_some,
            decide_eq_true_eq, hcount, if_true]
          exact .bind (gathers_saveFailure _ _) fun _ => trivial
        · simp only [hstatus, ne_eq, not_false_eq_true, if_true]
          trivial
  · cases outcome with
    | ok key =>
        refine .bind (.perform rfl) fun _ => ?_
        cases key with
        | none => trivial
        | some key => exact .perform rfl
    | error e =>
        cases e with
        | cancelled => trivial
        | transientError text => exact .perform rfl
        | _ => exact .bind (gathers_saveFailure _ _) fun _ => .perform rfl

/-- The handler of task `t` has come to a solve. -/
def Solves (h : List (System.Happening (service lib simulationId))) (t : Nat) : Prop :=
  ∃ delivered, System.Happening.entered t (Entry.deliver delivered) ∈ h ∧
    ∃ answered key raw next, answered <+: System.answers t h ∧
      (handleMessage lib simulationId delivered).After answered (.op (.runSimulation key raw) next)

/-- The deliveries that may solve, with their tasks. -/
def solvers (h : List (System.Happening (service lib simulationId))) : List (Nat × Nat) :=
  h.filterMap fun
    | .entered t (.deliver (some n)) => if n < maxDeliveries then some (t, n) else none
    | _ => none

theorem counts_solvers (h : List (System.Happening (service lib simulationId))) :
    (solvers h).map (·.2) = (counts h).filter (· < maxDeliveries) := by
  induction h with
  | nil => rfl
  | cons x h ih =>
      cases x with
      | entered t e =>
          cases e with
          | deliver delivered =>
              cases delivered with
              | none => exact ih
              | some n =>
                  by_cases hn : n < maxDeliveries
                  · simpa [solvers, counts, hn] using ih
                  · simpa [solvers, counts, hn] using ih
          | startSimulation | startSimulationFromCrm | deleteSimulation | saveSuccess
          | saveFailure => exact ih
      | performed | aborted | event => exact ih

/-- A task that has entered in such a run has a delivery with a readable count. -/
theorem delivery_of_entered {c c' : State lib simulationId}
    {h : List (System.Happening (service lib simulationId))}
    (hrun : (service lib simulationId).Runs (fun _ => delivery) c h c') {t : Nat} {e : Entry F B}
    (hentered : System.Happening.entered t e ∈ h) : ∃ n, e = .deliver (some n) := by
  induction hrun with
  | refl => exact absurd hentered List.not_mem_nil
  | @tail h c₁ c₂ l run ok step ih =>
      rcases List.mem_append.mp hentered with hold | hnew
      · exact ih hold
      · cases l with
        | enter t' e' =>
            obtain ⟨-, rfl⟩ := System.Happening.entered.inj (List.mem_singleton.mp hnew)
            rcases e with _ | _ | _ | (_ | n) | _ | _
            case deliver.some => exact ⟨n, rfl⟩
            all_goals exact ok.elim
        | step t' choice =>
            simp only [System.happening] at hnew
            split at hnew
            · simp only [Option.mem_toList, Option.map_eq_some_iff] at hnew
              obtain ⟨x, -, hx⟩ := hnew
              cases hx
            · exact absurd hnew List.not_mem_nil
        | abort | event => cases List.mem_singleton.mp hnew

/-- Solves are started by deliveries below the limit only, of which there are
`maxDeliveries - 1`. -/
theorem solves_bounded {c c' : State lib simulationId}
    {h : List (System.Happening (service lib simulationId))}
    (hrun : (service lib simulationId).Runs (fun _ => delivery) c h c') {n : Nat}
    (hcounts : counts h = List.range' 1 n) {ts : List Nat} (hnodup : ts.Nodup)
    (hts : ∀ t ∈ ts, Solves h t) : ts.length ≤ maxDeliveries - 1 := by
  have hsolvers : ts ⊆ (solvers h).map (·.1) := by
    intro t ht
    obtain ⟨delivered, hentered, answered, key, raw, next, -, hafter⟩ := hts t ht
    obtain ⟨count, hcount⟩ := delivery_of_entered hrun hentered
    obtain rfl := Entry.deliver.inj hcount
    have hbelow : count < maxDeliveries := by
      by_contra hlimit
      have hops := (gathers_handleMessage
        (Nat.le_of_not_lt hlimit)).after hafter
      exact absurd hops.1 (by simp [gathers])
    refine List.mem_map.mpr ⟨(t, count), ?_, rfl⟩
    exact List.mem_filterMap.mpr ⟨_, hentered, by simp [hbelow]⟩
  have hbelow : (counts h).filter (· < maxDeliveries) ⊆ List.range' 1 (maxDeliveries - 1) := by
    intro count hcount
    rw [hcounts] at hcount
    obtain ⟨hrange, hlt⟩ := List.mem_filter.mp hcount
    have hlt := of_decide_eq_true hlt
    rw [List.mem_range'_1] at hrange ⊢
    omega
  have hdistinct : (counts h).Nodup := hcounts ▸ List.nodup_range'
  calc ts.length
      ≤ ((solvers h).map (·.1)).length := (List.subperm_of_subset hnodup hsolvers).length_le
    _ = ((counts h).filter (· < maxDeliveries)).length := by
        rw [← counts_solvers, List.length_map, List.length_map]
    _ ≤ (List.range' 1 (maxDeliveries - 1)).length :=
        (List.subperm_of_subset (hdistinct.filter _) hbelow).length_le
    _ = maxDeliveries - 1 := List.length_range'

/-! ## Acks -/

/-- Replies are never taken back. -/
theorem replies_of_next {c c' : State lib simulationId}
    {l : System.Label (service lib simulationId)}
    (hnext : (service lib simulationId).next l c = some c') {reply : Nat × Reply}
    (hreply : reply ∈ c.world.nats.replies) : reply ∈ c'.world.nats.replies := by
  have hmoves := System.moves_of_next hnext
  generalize c'.world = w' at hmoves
  cases hmoves with
  | enter henter =>
      obtain ⟨started, rfl⟩ := enter_world henter
      exact hreply
  | step htask hexec =>
      have heffect := exec_effect hexec
      cases heffect with
      | none | db | audit | storage | files | finished => exact hreply
      | nats hmove =>
          cases hmove with
          | publish => exact hreply
          | ack | nak => exact List.mem_append_left _ hreply
  | abort | event => exact hreply

/-- An ack that has gone through is in the stream. -/
theorem acked_of_performed {allowed : List (System.Happening (service lib simulationId)) →
      State lib simulationId → System.Label (service lib simulationId) → Prop}
    {c c' : State lib simulationId} {h : List (System.Happening (service lib simulationId))}
    (hrun : (service lib simulationId).Runs allowed c h c') {t : Nat}
    (hack : System.Happening.performed t .ack (.ok ()) ∈ h) :
    (t, .ack) ∈ c'.world.nats.replies := by
  induction hrun with
  | refl => exact absurd hack List.not_mem_nil
  | @tail h c₁ c₂ l run ok step ih =>
      rcases List.mem_append.mp hack with hold | hnew
      · exact replies_of_next step (ih hold)
      · cases l with
        | enter | abort | event => cases List.mem_singleton.mp hnew
        | step t' choice =>
            simp only [System.happening] at hnew
            split at hnew
            · rename_i o k htask
              simp only [Option.mem_toList, Option.map_eq_some_iff] at hnew
              obtain ⟨x, hexec, hx⟩ := hnew
              obtain ⟨rfl, rfl, hr⟩ := System.Happening.performed.inj hx
              obtain ⟨r, w⟩ := x
              obtain rfl := eq_of_heq hr
              simp only [System.next, htask] at step
              obtain ⟨y, hy, rfl⟩ := Option.map_eq_some_iff.mp step
              obtain rfl := Option.some.inj (hexec.symm.trans hy)
              obtain ⟨-, rfl⟩ := Prod.mk.inj (Option.some.inj (exec_ok rfl hexec))
              exact List.mem_append_right _ (List.mem_singleton.mpr rfl)
            · exact absurd hnew List.not_mem_nil

/-- Between sessions, with the row's creation committed, whatever is about to open
one. -/
theorem base_of_called {c : State lib simulationId} (hsound : (deliveries lib simulationId).Sound c)
    {t : Nat} {m : String} {k : Except Exn Unit → Act F B Unit}
    (htask : c.tasks t = .running ((saveFailure simulationId m).andThen k)) :
    Base t c.world :=
  ⟨hsound.inv.created, hsound.pre (o := .getRow .own) htask⟩

/-- A call of `save_failure` that has returned leaves the row settled for good. -/
theorem settled_of_saved {c₀ c₁ c₂ c₃ : State lib simulationId}
    {h₁ h₂ h₃ : List (System.Happening (service lib simulationId))} (hbegins : Begins c₀)
    (hstored : 0 < c₀.world.nats.stored)
    (hrun₁ : (service lib simulationId).Runs (fun _ => delivery) c₀ h₁ c₁)
    (hrun₂ : (service lib simulationId).Runs (fun _ => delivery) c₁ h₂ c₂)
    (hrun₃ : (service lib simulationId).Runs (fun _ => delivery) c₂ h₃ c₃) {t : Nat} {m : String}
    {k : Except Exn Unit → Act F B Unit}
    (htask : c₁.tasks t = .running ((saveFailure simulationId m).andThen k))
    (hreturns : (saveFailure simulationId m).After (System.answers t h₂) (.ret (.ok ())))
    (hlive : c₂.tasks t ≠ .stopped) :
    ∀ row, c₃.world.db.row = some row → row.status ≠ .pending := by
  have hbase : Base t c₁.world := base_of_called (sound_of_runs hbegins hstored hrun₁) htask
  have hsound₁ : (settlement lib simulationId).Sound c₁ :=
    reaches_sound (sound_of_begins hbegins)
      (fun _ _ _ _ _ _ hinv hnoTx => Settlement.safe_entered hinv hnoTx) hrun₁.reaches
  have hsound₂ : (settlement lib simulationId).Sound c₂ :=
    reaches_sound hsound₁ (fun _ _ _ _ _ _ hinv hnoTx => Settlement.safe_entered hinv hnoTx)
      hrun₂.reaches
  have hsaved := hsound₁.called (fun r => fun hA hrely =>
      ⟨Settlement.base_stable hA.1 hrely,
        fun a ha hP => hrely.settled (hA.2 a ha hP)⟩)
    htask (settles_saveFailure simulationId m _ hbase)
    (fun _ _ _ _ _ _ _ hinv hnoTx => Settlement.safe_entered hinv hnoTx) hrun₂ hlive hreturns
  have hsettled : Settlement.Settled c₂.world.db := hsaved.2 () rfl trivial
  exact (hsound₂.keeps (A := fun w : World F B => Settlement.Settled w.db) (fun _ _ _ h hrely => hrely.settled h)
    (fun _ _ _ _ _ _ hinv hnoTx => Settlement.safe_entered hinv hnoTx) hrun₃.reaches hsettled).2

/-- The deliveries of one message, counted 1, 2, 3, …, in a run of three legs:
solves are bounded; from the limit on nothing is read and nothing solved; a
`save_failure` that has returned in the second leg leaves the row settled and,
unless the handler is cut off or one of its acks or the heartbeat's end raises,
the message acked; an outcome stays as it is. -/
theorem retries_bounded {c₀ c₁ c₂ c₃ : State lib simulationId}
    {h₁ h₂ h₃ : List (System.Happening (service lib simulationId))} {n : Nat}
    (hbegins : Begins c₀) (hstored : 0 < c₀.world.nats.stored)
    (hrun₁ : (service lib simulationId).Runs (fun _ => delivery) c₀ h₁ c₁)
    (hrun₂ : (service lib simulationId).Runs (fun _ => delivery) c₁ h₂ c₂)
    (hrun₃ : (service lib simulationId).Runs (fun _ => delivery) c₂ h₃ c₃)
    (hcounts : counts (h₁ ++ h₂ ++ h₃) = List.range' 1 n) :
    (∀ ts : List Nat, ts.Nodup → (∀ t ∈ ts, Solves (h₁ ++ h₂ ++ h₃) t) →
      ts.length ≤ maxDeliveries - 1) ∧
    (∀ count, maxDeliveries ≤ count →
      (handleMessage lib simulationId (some count)).AllOps fun o => gathers o = false) ∧
    (∀ t m k, c₁.tasks t = .running ((saveFailure simulationId m).andThen k) →
      (saveFailure simulationId m).After (System.answers t h₂) (.ret (.ok ())) →
      c₂.tasks t ≠ .stopped →
        (∀ row, c₃.world.db.row = some row → row.status ≠ .pending) ∧
        ∀ r, c₃.tasks t = .running (.ret r) →
          (∀ x ∈ System.answers t h₃, x.1 = .ack ∨ x.1 = .stopHeartbeat → ∀ e, x.2 ≠ .error e) →
            (t, .ack) ∈ c₃.world.nats.replies) ∧
    ∀ row, c₁.world.db.row = some row → row.status ≠ .pending →
      c₃.world.db.row = some row ∧ c₃.world.db.trees = c₁.world.db.trees := by
  have hrun₂₃ := hrun₂.trans hrun₃
  refine ⟨fun ts hnodup hts => ?_, fun _ => gathers_handleMessage,
    fun t m k htask hreturns hlive => ⟨?_, fun r hended hquiet => ?_⟩, fun row hrow houtcome => ?_⟩
  · exact solves_bounded ((hrun₁.trans hrun₂).trans hrun₃) hcounts hnodup hts
  · exact settled_of_saved hbegins hstored hrun₁ hrun₂ hrun₃ htask hreturns hlive
  · -- the handler was at the call, and has gone on from its end
    obtain ⟨h₀, c, e, w, p, a, hok, henter, hcall⟩ := hrun₁.origin (hbegins.idle t) htask
    have hack : AcksNext (k (.ok ())) := by
      cases e with
      | deliver delivered =>
          simp only [service, enter] at henter
          split_ifs at henter
          obtain ⟨-, rfl⟩ := Prod.mk.inj (Option.some.inj henter)
          exact acksNext_of_calls ⟨a, hcall⟩
      | startSimulation | startSimulationFromCrm | deleteSimulation | saveSuccess
      | saveFailure => exact hok.elim
    have htask₂ : c₂.tasks t = .running (k (.ok ())) := by
      rcases hrun₂.program htask with hstopped | ⟨q, hq, hafter⟩
      · exact absurd hstopped hlive
      · rw [hq, hafter.unique hreturns.andThen]
        rfl
    have hafter : (k (.ok ())).After (System.answers t h₃) (.ret r) := by
      rcases hrun₃.program htask₂ with hstopped | ⟨q, hq, hafter⟩
      · rw [hended] at hstopped
        cases hstopped
      · obtain rfl := System.Task.running.inj (hq.symm.trans hended)
        exact hafter
    exact acked_of_performed hrun₃ (System.mem_answers.mp (hack.acked hafter hquiet))
  · have hsound₁ := sound_of_runs hbegins hstored hrun₁
    exact (outcome_of_run hsound₁ hrun₂₃ ⟨houtcome, hrow, rfl⟩).2

end Runs

/-! ## The tenth delivery -/

/-- A delivery at the limit reads the row and, where it is PENDING, marks it; the
end of the heartbeat, the ack and the upload's deletion follow. -/
theorem handleMessage_at_limit [PyFloat F] (lib : Libraries F B L) (simulationId : Nat)
    {count : Nat} (hcount : maxDeliveries ≤ count) (row : SimulationModel)
    (hpending : row.status = .pending) :
    ∃ next m k stopped, handleMessage lib simulationId (some count) =
        snapshotSimulation.andThen next ∧
      next (.ok (some row)) = (saveFailure simulationId m).andThen k ∧
      k (.ok ()) = .op .stopHeartbeat stopped ∧
      stopped (.ok ()) = (do
        await .ack
        match row.fileStorageKey with
        | none => pure ()
        | some key => await (.delete (some (.source key)))) := by
  exact ⟨_, _, _, _,
    by rw [handleMessage, process, bind_def, Prog.ensuring, andThen_assoc, andThen_assoc],
    by
      simp only [hpending, ne_eq, not_true_eq_false, if_false, Option.any_some, decide_eq_true_eq,
        hcount, if_true]
      rw [bind_def, andThen_assoc],
    by rfl, by rfl⟩

def start : State smallLib 1 :=
  { world := smallWorld (some smallRow) 1 "d", tasks := fun _ => .idle }

theorem start_begins : Begins start :=
  { idle := fun _ => rfl
    tx := rfl
    created := fun _ _ => rfl
    published := fun _ => rfl
    replies := fun _ => List.not_mem_nil }

/-- Nine deliveries whose worker dies, and a tenth. -/
def tenth : List (System.Label (service smallLib 1)) :=
  (List.range 9).flatMap (fun t => [.enter t (Entry.deliver (some (t + 1))), .abort t]) ++
    [.enter 9 (Entry.deliver (some 10))]

def deliveryOnly (_ : State smallLib 1) : System.Label (service smallLib 1) → Bool
  | .enter _ (.deliver (some _)) => true
  | .enter _ _ => false
  | _ => true

theorem delivery_of_deliveryOnly (c : State smallLib 1) (l : System.Label (service smallLib 1))
    (h : deliveryOnly c l = true) : delivery c l := by
  cases l with
  | enter t e => rcases e with _ | _ | _ | (_ | n) | _ | _ <;> trivial
  | step | abort | event => trivial

/-- The tenth delivery's `save_failure` has returned, and nothing was replied. -/
theorem tenth_saved : ∃ (c₁ c₂ : State smallLib 1)
    (h₁ h₂ : List (System.Happening (service smallLib 1))) (m : String)
    (k : Except Exn Unit → Act ℚ Unit Unit) (stopped : Except Exn Unit → Act ℚ Unit Unit)
    (key : SourceKey),
    (service smallLib 1).Runs (fun _ => delivery) start h₁ c₁ ∧
      c₁.tasks 9 = .running ((saveFailure 1 m).andThen k) ∧
      (service smallLib 1).Runs (fun _ => delivery) c₁ h₂ c₂ ∧
      (saveFailure 1 m).After (System.answers 9 h₂) (.ret (.ok ())) ∧
      System.Happening.entered 9 (Entry.deliver (some 10)) ∈ h₁ ∧
      counts (h₁ ++ h₂) = List.range' 1 10 ∧ c₂.world.nats.replies = [] ∧
      c₂.tasks 9 = .running (.op .stopHeartbeat stopped) ∧
      stopped (.ok ()) = (do
        await .ack
        await (.delete (some (.source key)))) := by
  have hallowed : ∀ (h : List (System.Happening (service smallLib 1))) (c : State smallLib 1),
      delivery c (.step 9 Choice.ok) := fun _ _ => trivial
  have hnone : ∀ {h : List (System.Happening (service smallLib 1))},
      (∀ x ∈ h, ∃ o r, x = .performed 9 o r) → counts h = [] := fun hperformed =>
    List.filterMap_eq_nil_iff.mpr fun x hx => by
      obtain ⟨o, r, rfl⟩ := hperformed x hx
      rfl
  -- the tenth delivery begins
  obtain ⟨c, hc, hworld, htask⟩ : ∃ c, System.runAll deliveryOnly tenth start = some c ∧
      c.world = start.world ∧ c.tasks 9 = .running (handleMessage smallLib 1 (some 10)) :=
    ⟨_, rfl, rfl, rfl⟩
  obtain ⟨next, m, k, stopped, hhandle, hnext, hk, hstopped⟩ :=
    handleMessage_at_limit smallLib 1 (show maxDeliveries ≤ 10 by decide) smallRow rfl
  rw [hhandle] at htask
  have hrun := (System.runs_of_runAll hc).mono fun _ c l => delivery_of_deliveryOnly c l
  -- it reads the row
  have hread : (snapshotSimulation : Act ℚ Unit _).run (fun o w => exec Choice.ok 9 o w) c.world =
      some (.ok (some smallRow), start.world) := by
    rw [hworld]
    rfl
  obtain ⟨h₁, hrun₁, -, hperformed₁⟩ := System.runs_of_run hallowed htask hread
  rw [hnext] at hrun₁
  -- and marks it
  obtain ⟨w, hsave, hreplies⟩ : ∃ w, (saveFailure 1 m : Act ℚ Unit Unit).run
      (fun o w => exec Choice.ok 9 o w) start.world = some (.ok (), w) ∧ w.nats.replies = [] :=
    ⟨_, rfl, rfl⟩
  have htask₁ : (c.set start.world 9 (.running ((saveFailure 1 m).andThen k))).tasks 9 =
      .running ((saveFailure 1 m).andThen k) := by simp [System.Config.set]
  obtain ⟨h₂, hrun₂, hreturns, hperformed₂⟩ := System.runs_of_run hallowed htask₁ hsave
  refine ⟨_, _, System.historyOf tenth start ++ h₁, h₂, m, k, stopped,
    { community := 3, uuid := smallUuid, fileName := "data.csv" }, hrun.trans hrun₁, htask₁, hrun₂,
    hreturns, ?_, ?_, hreplies, by simp [System.Config.set, hk], hstopped⟩
  · refine List.mem_append_left _ (List.mem_of_getLast? ?_)
    rfl
  · rw [counts, List.filterMap_append, List.filterMap_append, ← counts, ← counts, ← counts,
      hnone hperformed₁, hnone hperformed₂]
    rfl

/-- A tenth delivery whose ack goes through: the row is settled and the message
acked. -/
theorem retries_bounded_tenth :
    ∃ c : State smallLib 1, (∀ row, c.world.db.row = some row → row.status ≠ .pending) ∧
      (9, .ack) ∈ c.world.nats.replies := by
  obtain ⟨c₁, c₂, h₁, h₂, m, k, stopped, key, hrun₁, htask, hrun₂, hreturns, -, hcounts, -, htask₂,
    hstopped⟩ := tenth_saved
  have hallowed : ∀ (h : List (System.Happening (service smallLib 1))) (c : State smallLib 1),
      delivery c (.step 9 Choice.ok) := fun _ _ => trivial
  -- the heartbeat ends, the message is acked, the upload deleted
  obtain ⟨c₃, hstop, -, htask₃⟩ := System.runs_step (r := .ok ()) hallowed htask₂ rfl
  rw [hstopped] at htask₃
  obtain ⟨c₄, hack, -, htask₄⟩ := System.runs_step (o := .ack) (r := .ok ()) hallowed htask₃ rfl
  obtain ⟨c₅, hdelete, -, htask₅⟩ := System.runs_step (o := .delete (some (.source key)))
    (r := .ok ()) hallowed htask₄ rfl
  have hrun₃ := (hstop.trans hack).trans hdelete
  have hall := retries_bounded (n := 10) start_begins (by decide) hrun₁ hrun₂ hrun₃ (by
    rw [counts, List.filterMap_append, ← counts, hcounts]
    rfl)
  obtain ⟨hsettled, hacked⟩ := hall.2.2.1 9 m k htask hreturns (by simp [htask₂])
  refine ⟨c₅, hsettled, hacked (.ok ()) htask₅ fun x hx _ e he => ?_⟩
  simp only [System.answers, List.cons_append, List.nil_append, List.filterMap_cons, if_true,
    List.filterMap_nil, List.mem_cons, List.not_mem_nil, or_false] at hx
  rcases hx with rfl | rfl | rfl <;> cases he

/-- After the `save_failure` of a tenth delivery the ack fails: the handler has
ended, the row has its outcome and the message is not acked. -/
theorem saved_not_acked :
    ∃ (c₁ c₂ c₃ : State smallLib 1) (h₁ h₂ h₃ : List (System.Happening (service smallLib 1)))
      (m : String) (k : Except Exn Unit → Act ℚ Unit Unit) (e : Exn),
      (service smallLib 1).Runs (fun _ => delivery) start h₁ c₁ ∧
        (service smallLib 1).Runs (fun _ => delivery) c₁ h₂ c₂ ∧
        (service smallLib 1).Runs (fun _ => delivery) c₂ h₃ c₃ ∧
        counts (h₁ ++ h₂ ++ h₃) = List.range' 1 10 ∧
        System.Happening.entered 9 (Entry.deliver (some 10)) ∈ h₁ ∧
        c₁.tasks 9 = .running ((saveFailure 1 m).andThen k) ∧
        (saveFailure 1 m).After (System.answers 9 h₂) (.ret (.ok ())) ∧
        c₃.tasks 9 = .running (.ret (.error e)) ∧ (9, .ack) ∉ c₃.world.nats.replies := by
  obtain ⟨c₁, c₂, h₁, h₂, m, k, stopped, key, hrun₁, htask, hrun₂, hreturns, hentered, hcounts,
    hreplies, htask₂, hstopped⟩ := tenth_saved
  have hallowed : ∀ (choice : Choice) (h : List (System.Happening (service smallLib 1)))
      (c : State smallLib 1), delivery c (.step 9 choice) := fun _ _ _ => trivial
  obtain ⟨c₃, hstop, hworld₃, htask₃⟩ := System.runs_step (r := .ok ()) (hallowed .ok) htask₂ rfl
  rw [hstopped] at htask₃
  obtain ⟨c₄, hack, hworld₄, htask₄⟩ := System.runs_step (o := .ack)
    (r := .error (.other "connection closed")) (hallowed (.fail (.other "connection closed")))
    htask₃ rfl
  refine ⟨c₁, c₂, c₄, h₁, h₂, _, m, k, _, hrun₁, hrun₂, hstop.trans hack, ?_, hentered, htask, hreturns,
    htask₄, ?_⟩
  · rw [counts, List.filterMap_append, ← counts, hcounts]
    rfl
  · rw [hworld₄, hworld₃, hreplies]
    exact List.not_mem_nil

end SimulationKey.Theorems.Retries
