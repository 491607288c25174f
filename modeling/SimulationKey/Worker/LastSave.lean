import SimulationKey.Backend.Runs
import SimulationKey.Kit.History
import SimulationKey.Worker.Handling

/-!
# A `save_failure` that returns is the last thing `_process` does

Wherever the handler calls `save_failure`, its program is `save_failure` and then
a continuation (`Prog.Calls`). `SavesLast` says what that continuation is once
the call has returned: an end of the program.

A call is recognised by its operations. Only three programs read the row in a
session of their own: a snapshot goes on to close it, `save_success` to claim a
SUCCESS, `save_failure` to claim a FAILED row.
-/

namespace SimulationKey

open Kit Kit.Prog

variable {F B L α β : Type}

/-! ## Calls -/

variable {simulationId : Nat}

/-- Whatever calls `save_failure` in `p` goes on to an end of `p` in `V` once the
call has returned. -/
def SavesLast (simulationId : Nat) (p : Act F B α) (V : α → Prop) : Prop :=
  ∀ (f : Except Exn α → Act F B Unit) m k, (p.andThen f).Calls (saveFailure simulationId m) k →
    (∃ a, V a ∧ k (.ok ()) = f (.ok a)) ∨ ∃ r, (f r).Calls (saveFailure simulationId m) k

variable {p : Act F B α} {V : α → Prop} {W : β → Prop}

/-- No session is opened: nothing is saved. -/
def opens : Op F B → Bool
  | .getRow .own => true
  | _ => false

theorem ne_getRow {o : Op F B} (ho : opens o = false) : o ≠ .getRow .own := by
  rintro rfl
  cases ho

theorem savesLast_of_allOps (hops : p.AllOps fun o => opens o = false) :
    SavesLast simulationId p V := fun _ _ _ hcalls =>
  Or.inr (hcalls.of_andThen (hops.mono fun _ => ne_getRow))

theorem SavesLast.bind {f : α → Act F B β} (hp : SavesLast simulationId p V)
    (hV : ∀ a, V a → ∃ b, W b ∧ f a = pure b) (hf : ∀ a, SavesLast simulationId (f a) W) :
    SavesLast simulationId (p >>= f) W := by
  intro g m k hcalls
  rw [bind_def, andThen_assoc] at hcalls
  rcases hp _ m k hcalls with ⟨a, ha, hk⟩ | ⟨r, hlater⟩
  · obtain ⟨b, hb, hfa⟩ := hV a ha
    refine Or.inl ⟨b, hb, ?_⟩
    rw [hk]
    simp only [hfa]
    rfl
  · cases r with
    | ok a => exact hf a g m k hlater
    | error e => exact Or.inr ⟨.error e, hlater⟩

theorem SavesLast.tryCatch {handler : Exn → Act F B α} (hp : SavesLast simulationId p V)
    (hhandler : ∀ e, SavesLast simulationId (handler e) V) :
    SavesLast simulationId (p.tryCatch handler) V := by
  intro g m k hcalls
  rw [Prog.tryCatch, andThen_assoc] at hcalls
  rcases hp _ m k hcalls with ⟨a, ha, hk⟩ | ⟨r, hlater⟩
  · exact Or.inl ⟨a, ha, hk⟩
  · cases r with
    | ok a => exact Or.inr ⟨.ok a, hlater⟩
    | error e => exact hhandler e g m k hlater

/-- A cleanup that saves nothing, after a program that saves nothing. -/
theorem SavesLast.ensuring {cleanup : Act F B Unit}
    (hp : SavesLast simulationId p fun _ => False)
    (hcleanup : cleanup.AllOps fun o => opens o = false) :
    SavesLast simulationId (p.ensuring cleanup) V := by
  intro g m k hcalls
  rw [Prog.ensuring, andThen_assoc] at hcalls
  rcases hp _ m k hcalls with ⟨a, ha, -⟩ | ⟨outcome, hlater⟩
  · exact ha.elim
  · rw [andThen_assoc] at hlater
    obtain ⟨r, hlater⟩ := hlater.of_andThen (hcleanup.mono fun _ => ne_getRow)
    cases r with
    | ok u => exact Or.inr ⟨outcome, hlater⟩
    | error e => exact Or.inr ⟨.error e, hlater⟩

/-! ## The programs that open a session -/

variable {next : Except Exn (Option SimulationModel) → Act F B α}

/-- A session is opened once. -/
theorem savesLast_session (hnext : ∀ r, (next r).AllOps fun o => opens o = false)
    (hcall : ∀ (f : Except Exn α → Act F B Unit) m k,
      (Prog.op (.getRow .own) next).andThen f = (saveFailure simulationId m).andThen k →
        ∃ a, V a ∧ k (.ok ()) = f (.ok a)) :
    SavesLast simulationId (.op (.getRow .own) next) V := by
  rintro f m k ⟨h, hafter⟩
  cases h with
  | nil => exact Or.inl (hcall f m k (hafter.unique (.refl _)).symm)
  | cons x h =>
      cases hafter with
      | op rest =>
          exact Or.inr (Calls.of_andThen ((hnext _).mono fun _ => ne_getRow) ⟨h, rest⟩)

theorem opens_announce (id idCommunity : Nat) (payload : AuditPayload) (hint : SimulationStatus) :
    (announce id idCommunity payload hint : Act F B Unit).AllOps fun o => opens o = false :=
  .bind (.ensuring (.bind (.perform rfl) fun _ => .perform rfl) (.perform rfl))
    fun _ => .perform rfl

/-- A writer opens one session. -/
theorem savesLast_recorded {values : SimulationModel → RowValues}
    {rest : SimulationModel → Act F B Unit} {id : Nat} {payload : AuditPayload}
    {hint : SimulationStatus} {V : Unit → Prop}
    (hrest : ∀ row, (rest row).AllOps fun o => opens o = false)
    (hcall : ∀ (f : Except Exn Unit → Act F B Unit) m k,
      (claimAndCommit values rest >>= fun
        | none => pure ()
        | some idCommunity => announce id idCommunity payload hint : Act F B Unit).andThen f =
          (saveFailure simulationId m).andThen k → ∃ a, V a ∧ k (.ok ()) = f (.ok a)) :
    SavesLast simulationId
      (claimAndCommit values rest >>= fun
        | none => pure ()
        | some idCommunity => announce id idCommunity payload hint) V := by
  have hlater : ∀ {body : Act F B (Option Nat)}, (body.AllOps fun o => opens o = false) →
      (withLocalSession .own body >>= fun
        | none => pure ()
        | some idCommunity => announce id idCommunity payload hint : Act F B Unit).AllOps
          fun o => opens o = false := by
    intro body hbody
    refine .bind (.ensuring hbody (.perform rfl)) fun committed => ?_
    cases committed with
    | none => trivial
    | some idCommunity => exact opens_announce _ _ _ _
  refine savesLast_session (fun r => ?_) hcall
  rcases r with e | _ | row
  · exact @hlater (raise e) trivial
  · exact @hlater (pure none) trivial
  · refine @hlater (await (.claim .own (values row)) >>= fun rowcount =>
      if rowcount = 0 then pure none else do
        rest row
        await (.commitLocal .own)
        pure (some row.idCommunity)) (.bind (.perform rfl) fun rowcount => ?_)
    split
    · trivial
    · exact .bind (hrest row) fun _ => .bind (.perform rfl) fun _ => trivial

/-- Two calls of `save_failure` that are one go on alike: where the row is gone,
both end at once. -/
theorem savesLast_saveFailure (m : String) :
    SavesLast simulationId (saveFailure simulationId m : Act F B Unit) fun _ => True := by
  have hgone : ∀ m, (saveFailure simulationId m : Act F B Unit).After
      [⟨.getRow .own, .ok none⟩, ⟨.closeLocal .own, .ok ()⟩] (.ret (.ok ())) :=
    fun m => .op (.op (.refl _))
  refine savesLast_recorded (fun _ => trivial) fun f m' k heq => ⟨(), trivial, ?_⟩
  have hf : ((saveFailure simulationId m).andThen f).After _ (f (.ok ())) := (hgone m).andThen
  have hk : ((saveFailure simulationId m').andThen k).After _ (k (.ok ())) := (hgone m').andThen
  exact hk.unique (heq ▸ hf)

/-- `save_success` makes another claim. -/
theorem savesLast_saveSuccess (result : KeySimResult F) (path : Nat) {V : Unit → Prop} :
    SavesLast simulationId (saveSuccess simulationId result path : Act F B Unit) V := by
  refine savesLast_recorded (fun _ => .bind (.perform rfl) fun _ => .perform rfl)
    fun f m k heq => ?_
  have hread : ∃ next, ((saveSuccess simulationId result path : Act F B Unit).andThen f).After
      [⟨.getRow .own, .ok (some smallRow)⟩]
      (.op (.claim .own (successValues (resultKeyOf simulationId smallRow))) next) :=
    ⟨_, .op (.refl _)⟩
  have hread' : ∃ next, ((saveFailure simulationId m : Act F B Unit).andThen k).After
      [⟨.getRow .own, .ok (some smallRow)⟩] (.op (.claim .own (failureValues m)) next) :=
    ⟨_, .op (.refl _)⟩
  obtain ⟨next, hread⟩ := hread
  obtain ⟨next', hread'⟩ := hread'
  have hsame := (Prog.op.inj (hread.unique (heq ▸ hread'))).1
  have hstatus := congrArg RowValues.status (Op.claim.inj hsame).2
  cases hstatus

/-- The snapshot only reads. -/
theorem savesLast_snapshot {V : Option SimulationModel → Prop} :
    SavesLast simulationId (snapshotSimulation : Act F B _) V := by
  refine savesLast_session (fun r => ?_) fun f m k heq => ?_
  · exact .ensuring (p := .ret r) trivial (.perform rfl)
  · have hread' : ∃ next, ((saveFailure simulationId m : Act F B Unit).andThen k).After
        [⟨.getRow .own, .ok (some smallRow)⟩] (.op (.claim .own (failureValues m)) next) :=
      ⟨_, .op (.refl _)⟩
    have hread : ∃ next, ((snapshotSimulation : Act F B _).andThen f).After
        [⟨.getRow .own, .ok (some smallRow)⟩] (.op (.closeLocal .own) next) :=
      ⟨_, .op (.refl _)⟩
    obtain ⟨next, hread⟩ := hread
    obtain ⟨next', hread'⟩ := hread'
    have hsame := (Prog.op.inj (hread.unique (heq ▸ hread'))).1
    cases hsame

/-! ## `_process` -/

theorem savesLast_routine (hops : p.AllOps fun o => o.routine = true) :
    SavesLast simulationId p V :=
  savesLast_of_allOps (hops.mono fun o ho => by cases o <;> first | rfl | cases ho)

theorem savesLast_pure {a : α} : SavesLast simulationId (pure a : Act F B α) V :=
  savesLast_of_allOps trivial

theorem savesLast_raise {e : Exn} : SavesLast simulationId (raise e : Act F B α) V :=
  savesLast_of_allOps trivial

/-- A step's end of the run, with the upload to delete. -/
def EndsRun (r : Except (Option SourceKey) α) : Prop := ∃ storageKey, r = .error storageKey

theorem savesLast_settle (m : String) (key : Option SourceKey) :
    SavesLast simulationId (settle simulationId m key : Act F B (Except (Option SourceKey) α))
      EndsRun :=
  (savesLast_saveFailure m).bind (fun _ _ => ⟨.error key, ⟨key, rfl⟩, rfl⟩) fun _ => savesLast_pure

theorem savesLast_afterSolverCrash (delivered : Option Nat) (text : String)
    (key : Option SourceKey) :
    SavesLast simulationId
      (afterSolverCrash simulationId delivered text key :
        Act F B (Except (Option SourceKey) α)) EndsRun := by
  unfold afterSolverCrash
  cases delivered with
  | none => exact savesLast_settle _ _
  | some n =>
      by_cases hretry : n < maxSolverCrashDeliveries
      · simp only [hretry, if_true]
        exact savesLast_raise
      · simp only [hretry, if_false]
        exact savesLast_settle _ _

/-- A step that ends the run hands its end on. -/
theorem SavesLast.andEnds {p : Act F B (Except (Option SourceKey) α)}
    {f : Except (Option SourceKey) α → Act F B β} (hp : SavesLast simulationId p EndsRun)
    (hends : ∀ terminal, ∃ b, W b ∧ f (.error terminal) = pure b)
    (hf : ∀ a, SavesLast simulationId (f (.ok a)) W) : SavesLast simulationId (p >>= f) W := by
  refine hp.bind (fun r hr => ?_) fun r => ?_
  · obtain ⟨terminal, rfl⟩ := hr
    exact hends terminal
  · cases r with
    | ok a => exact hf a
    | error terminal =>
        obtain ⟨b, -, hb⟩ := hends terminal
        rw [hb]
        exact savesLast_pure

section Process

variable [PyFloat F] (lib : Libraries F B L) (delivered : Option Nat) (row : SimulationModel)

theorem savesLast_loadSource (keyInput : SimulationKeyInput F) :
    SavesLast simulationId (loadSource lib simulationId row keyInput) EndsRun := by
  unfold loadSource
  cases row.source with
  | crm =>
      simp only [loadFromCrm]
      split
      · refine SavesLast.bind (V := fun _ => False) (savesLast_routine
          (.tryCatch (routine_readPeriod _ _ _ _ _ _) fun _ => trivial)) (fun _ => False.elim)
          fun period => ?_
        cases loadRows period.1 period.2 with
        | error failure => exact savesLast_settle _ _
        | ok raw => exact savesLast_pure
      · exact savesLast_settle _ _
  | file =>
      simp only [loadFromFile]
      split
      · refine SavesLast.andEnds (SavesLast.tryCatch (savesLast_of_allOps ?_) fun e => ?_)
          (fun terminal => ⟨_, ⟨terminal, rfl⟩, rfl⟩) fun content => ?_
        · exact .bind (.perform rfl) fun _ => trivial
        · cases e with
          | objectNotFound text => exact savesLast_settle _ _
          | _ => exact savesLast_raise
        · simp only
          split
          · exact savesLast_settle _ _
          · exact savesLast_pure
      · exact savesLast_settle _ _

omit [PyFloat F] in
theorem savesLast_solveRun (keyInput : SimulationKeyInput F) (raw : SimulationRawData F) :
    SavesLast simulationId
      (solveRun simulationId delivered row keyInput raw : Act F B _) EndsRun := by
  refine SavesLast.tryCatch (savesLast_of_allOps ?_) fun e => ?_
  · refine .bind (.tryCatch (.perform rfl) fun e => ?_) fun _ => trivial
    cases e <;> trivial
  · cases e with
    | solverCrash text => exact savesLast_afterSolverCrash _ _ _
    | cancelled => exact savesLast_raise
    | _ => exact savesLast_settle _ _

omit [PyFloat F] in
theorem savesLast_persistRun (solved : KeySimResult F × Nat) {V : Unit → Prop} :
    SavesLast simulationId (persistRun simulationId solved : Act F B Unit) V :=
  SavesLast.ensuring ((savesLast_saveSuccess _ _).tryCatch fun _ => savesLast_raise)
    (.perform rfl)

theorem savesLast_runKey (key : AllocationKeyModel F) :
    SavesLast simulationId (runKey lib simulationId delivered row key) fun _ => True := by
  refine (savesLast_loadSource lib row _).andEnds (fun terminal => ⟨terminal, trivial, rfl⟩)
    fun raw => ?_
  simp only
  split
  · exact (savesLast_saveFailure _).bind (fun _ _ => ⟨_, trivial, rfl⟩) fun _ => savesLast_pure
  · refine (savesLast_solveRun delivered row _ raw).andEnds
      (fun terminal => ⟨terminal, trivial, rfl⟩) fun solved => ?_
    exact (savesLast_persistRun solved (V := fun _ => False)).bind (fun _ => False.elim)
      fun _ => savesLast_pure

/-- A `save_failure` that returns is the last thing `_process` does. -/
theorem savesLast_process :
    SavesLast simulationId (process lib simulationId delivered) fun _ => True := by
  refine (savesLast_snapshot (V := fun _ => False)).bind (fun _ => False.elim) fun snapshot => ?_
  have hfailed : ∀ (m : String) (key : Option SourceKey),
      SavesLast simulationId (saveFailure simulationId m >>= fun _ => pure key : Act F B _)
        fun _ => True :=
    fun m key => (savesLast_saveFailure m).bind (fun _ _ => ⟨_, trivial, rfl⟩)
      fun _ => savesLast_pure
  cases snapshot with
  | none => exact savesLast_pure
  | some row =>
      by_cases hstatus : row.status = .pending
      · simp only [hstatus, ne_eq, not_true_eq_false, if_false]
        split
        · exact hfailed _ _
        · refine SavesLast.bind (V := fun _ => False) (savesLast_routine
            (.tryCatch (routine_readCrmKey _ _) fun _ => trivial)) (fun _ => False.elim)
            fun key => ?_
          cases key with
          | none => exact hfailed _ _
          | some key => exact savesLast_runKey lib delivered row key
      · simp only [hstatus, ne_eq, not_false_eq_true, if_true]
        exact savesLast_pure

end Process

/-! ## The handler -/

/-- The next thing is an ack, or the end of the heartbeat and then an ack. -/
def AcksNext (p : Act F B Unit) : Prop :=
  (∃ next, p = .op .ack next) ∨
    ∃ next next', p = .op .stopHeartbeat next ∧ next (.ok ()) = .op .ack next'

/-- A task that ends from there has acked, unless one of the two has raised. -/
theorem AcksNext.acked {p : Act F B Unit} {h : List (Answer (Op F B) Op.Resp Exn)}
    {r : Except Exn Unit} (hp : AcksNext p) (hafter : p.After h (.ret r))
    (hquiet : ∀ x ∈ h, x.1 = .ack ∨ x.1 = .stopHeartbeat → ∀ e, x.2 ≠ .error e) :
    ⟨.ack, .ok ()⟩ ∈ h := by
  have hack : ∀ {next : Except Exn Unit → Act F B Unit} {h : List (Answer (Op F B) Op.Resp Exn)},
      (Prog.op .ack next).After h (.ret r) →
        (∀ x ∈ h, x.1 = .ack ∨ x.1 = .stopHeartbeat → ∀ e, x.2 ≠ .error e) → ⟨.ack, .ok ()⟩ ∈ h := by
    intro next h hafter hquiet
    cases hafter with
    | @op _ _ answer h q rest =>
        cases answer with
        | ok a => exact List.mem_cons_self
        | error e => exact absurd rfl (hquiet ⟨.ack, .error e⟩ List.mem_cons_self (Or.inl rfl) e)
  rcases hp with ⟨next, rfl⟩ | ⟨next, next', rfl, hnext⟩
  · exact hack hafter hquiet
  · cases hafter with
    | @op _ _ answer h q rest =>
        cases answer with
        | ok a =>
            rw [hnext] at rest
            exact List.mem_cons_of_mem _
              (hack rest fun x hx => hquiet x (List.mem_cons_of_mem _ hx))
        | error e =>
            exact absurd rfl (hquiet ⟨.stopHeartbeat, .error e⟩ List.mem_cons_self (Or.inr rfl) e)

/-- The reply: an ack after a value, and for an unexpected exception once it is
saved. -/
theorem handleMessage_reply [PyFloat F] (lib : Libraries F B L) (simulationId : Nat)
    (delivered : Option Nat) :
    ∃ reply, handleMessage lib simulationId delivered =
        ((process lib simulationId delivered).ensuring (await .stopHeartbeat)).andThen reply ∧
      (∀ key, ∃ next, reply (.ok key) = .op .ack next ∧
        ∀ r, (next r).AllOps fun o => opens o = false) ∧
      ∀ e, ((reply (.error e)).AllOps fun o => opens o = false) ∨
        reply (.error e) =
          saveFailure simulationId "unhandled_worker_error" >>= fun _ => await .ack := by
  refine ⟨_, rfl, fun key => ⟨_, rfl, fun r => ?_⟩, fun e => ?_⟩
  · rcases r with e | u
    · trivial
    · cases key with
      | none => trivial
      | some key => exact .perform rfl
  · cases e with
    | cancelled => exact Or.inl trivial
    | transientError text => exact Or.inl (.perform rfl)
    | _ => exact Or.inr rfl

/-- Once a `save_failure` of the handler has returned, an ack is next. -/
theorem acksNext_of_calls [PyFloat F] {lib : Libraries F B L} {delivered : Option Nat} {m : String}
    {k : Except Exn Unit → Act F B Unit}
    (hcalls : (handleMessage lib simulationId delivered).Calls (saveFailure simulationId m) k) :
    AcksNext (k (.ok ())) := by
  have hsaves : ∀ {p : Act F B Unit}, (p.AllOps fun o => opens o = false) →
      ¬ p.Calls (saveFailure simulationId m) k := fun hops =>
    not_calls (hops.mono fun _ => ne_getRow)
  obtain ⟨reply, hhandle, hvalue, hexception⟩ := handleMessage_reply lib simulationId
    delivered
  rw [hhandle, Prog.ensuring, andThen_assoc] at hcalls
  rcases savesLast_process lib delivered _ m k hcalls with ⟨key, -, hk⟩ | ⟨outcome, hlater⟩
  · -- `_process` has returned
    obtain ⟨next, hnext, -⟩ := hvalue key
    exact Or.inr ⟨_, next, hk, hnext⟩
  · rw [andThen_assoc] at hlater
    obtain ⟨r, hlater⟩ := hlater.of_andThen (.perform (ne_getRow rfl))
    have hraised : ∀ e : Exn, (reply (.error e)).Calls (saveFailure simulationId m) k →
        AcksNext (k (.ok ())) := by
      intro e hcalls
      rcases hexception e with hops | heq
      · exact absurd hcalls (hsaves hops)
      · rw [heq] at hcalls
        rcases savesLast_saveFailure "unhandled_worker_error" _ m k hcalls with
          ⟨_, -, hk⟩ | ⟨r, hlater⟩
        · exact Or.inl ⟨_, hk⟩
        · cases r with
          | ok u => exact absurd hlater (hsaves (.perform rfl))
          | error e => exact absurd hlater (hsaves trivial)
    cases r with
    | error e => exact hraised e hlater
    | ok u =>
        cases outcome with
        | error e => exact hraised e hlater
        | ok key =>
            obtain ⟨next, hnext, hops⟩ := hvalue key
            refine absurd hlater (hsaves (p := reply (.ok key)) ?_)
            rw [hnext]
            exact ⟨rfl, hops⟩

end SimulationKey
