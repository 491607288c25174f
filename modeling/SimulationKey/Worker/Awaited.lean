import SimulationKey.Worker.Dispatcher

/-!
# What the worker awaits

The operations of the two writers and of `_process`, for proofs that ask only
which operations a program may perform.
-/

namespace SimulationKey

open Kit Kit.Prog

variable {F B L α : Type}

/-! ## The writers -/

/-- What `save_success` and `save_failure` await. -/
def Op.records : Op F B → Bool
  | .getRow .own | .claim .own _ | .insertTree .own _ | .uploadFile .. | .commitLocal .own
  | .closeLocal .own | .logAudit .own _ | .commitCrm .own | .closeCrm .own | .emit _ => true
  | _ => false

theorem records_recorded {values : SimulationModel → RowValues}
    {rest : SimulationModel → Act F B Unit}
    (hrest : ∀ row, (rest row).AllOps fun o => o.records = true) (id : Nat)
    (payload : AuditPayload) (hint : SimulationStatus) :
    (claimAndCommit values rest >>= fun
      | none => pure ()
      | some idCommunity => announce id idCommunity payload hint : Act F B Unit).AllOps
        fun o => o.records = true := by
  refine .bind (.ensuring (.bind (.perform rfl) fun row => ?_) (.perform rfl)) fun committed => ?_
  · cases row with
    | none => trivial
    | some row =>
        refine .bind (.perform rfl) fun rowcount => ?_
        by_cases hnone : rowcount = 0
        · simp only [hnone, if_true]
          trivial
        · simp only [hnone, if_false]
          exact .bind (hrest row) fun _ => .bind (.perform rfl) fun _ => trivial
  · cases committed with
    | none => trivial
    | some idCommunity =>
        exact .bind (.ensuring (.bind (.perform rfl) fun _ => .perform rfl) (.perform rfl))
          fun _ => .perform rfl

theorem records_saveFailure (id : Nat) (errorMessage : String) :
    (saveFailure id errorMessage : Act F B Unit).AllOps fun o => o.records = true := by
  refine records_recorded (fun row => ?_) id _ _
  trivial

theorem records_saveSuccess (id : Nat) (result : KeySimResult F) (path : Nat) :
    (saveSuccess id result path : Act F B Unit).AllOps fun o => o.records = true := by
  refine records_recorded (fun row => ?_) id _ _
  exact .bind (.perform rfl) fun _ => .perform rfl

/-! ## The data of a run -/

/-- What `_process` awaits but for the solve. -/
def Op.loads : Op F B → Bool
  | .getAllocationKey .. | .summarize .. | .fetchRows .. | .download _ => true
  | o => o.records

theorem loads_of_records {o : Op F B} (h : o.records = true) : o.loads = true := by
  cases o <;> first | exact h | rfl

theorem loads_saveFailure (id : Nat) (errorMessage : String) :
    (saveFailure id errorMessage : Act F B Unit).AllOps fun o => o.loads = true :=
  (records_saveFailure id errorMessage).mono fun _ => loads_of_records

theorem loads_settle (id : Nat) (errorMessage : String) (storageKey : Option SourceKey) :
    (settle id errorMessage storageKey : Act F B (Except (Option SourceKey) α)).AllOps
      fun o => o.loads = true :=
  .bind (loads_saveFailure id errorMessage) fun _ => trivial

theorem loads_afterSolverCrash (id : Nat) (delivered : Option Nat) (text : String)
    (storageKey : Option SourceKey) :
    (afterSolverCrash id delivered text storageKey :
      Act F B (Except (Option SourceKey) α)).AllOps fun o => o.loads = true := by
  unfold afterSolverCrash
  cases delivered with
  | none => exact loads_settle ..
  | some n =>
      by_cases hn : n < maxSolverCrashDeliveries
      · simp only [hn, if_true]
        trivial
      · simp only [hn, if_false]
        exact loads_settle ..

theorem loads_downloadSource (id : Nat) (storageKey : SourceKey) :
    (downloadSource id storageKey : Act F B (Except (Option SourceKey) B)).AllOps
      fun o => o.loads = true := by
  refine .tryCatch (.bind (.perform rfl) fun _ => trivial) fun e => ?_
  cases e <;> first | exact loads_settle .. | trivial

variable [PyFloat F] (lib : Libraries F B L) (id : Nat)

theorem loads_loadFromFile (snapshot : SimulationModel) (consumerNames : List String) :
    (loadFromFile lib id snapshot consumerNames).AllOps fun o => o.loads = true := by
  unfold loadFromFile
  split
  · refine .bind (loads_downloadSource ..) fun loaded => ?_
    cases loaded with
    | error terminal => trivial
    | ok content =>
        simp only
        split
        · exact loads_settle ..
        · trivial
  · exact loads_settle ..

theorem loads_loadFromCrm (snapshot : SimulationModel) (consumerNames : List String)
    (iterations : Nat) : (loadFromCrm id snapshot consumerNames iterations : Act F B _).AllOps
      fun o => o.loads = true := by
  unfold loadFromCrm
  split
  · refine .bind (.tryCatch (.ensuring (.bind (.perform rfl) fun summary => ?_) (.perform rfl))
      fun _ => trivial) fun period => ?_
    · by_cases hok : (evaluate summary consumerNames iterations).ok = true
      · simp only [hok, if_true]
        exact .bind (.perform rfl) fun _ => trivial
      · simp only [hok, Bool.false_eq_true, if_false]
        trivial
    · split
      · exact loads_settle ..
      · trivial
  · exact loads_settle ..

theorem loads_loadSource (snapshot : SimulationModel) (keyInput : SimulationKeyInput F) :
    (loadSource lib id snapshot keyInput).AllOps fun o => o.loads = true := by
  unfold loadSource
  cases snapshot.source with
  | crm => exact loads_loadFromCrm ..
  | file => exact loads_loadFromFile ..

/-! ## `_process` -/

/-- What `_process` awaits. -/
def Op.processes : Op F B → Bool
  | .runSimulation .. | .remove _ => true
  | o => o.loads

omit [PyFloat F] in
theorem processes_of_loads {o : Op F B} (h : o.loads = true) : o.processes = true := by
  cases o <;> first | exact h | rfl

omit [PyFloat F] in
theorem processes_saveFailure (id : Nat) (errorMessage : String) :
    (saveFailure id errorMessage : Act F B Unit).AllOps fun o => o.processes = true :=
  (loads_saveFailure id errorMessage).mono fun _ => processes_of_loads

omit [PyFloat F] in
theorem processes_settle (id : Nat) (errorMessage : String) (storageKey : Option SourceKey) :
    (settle id errorMessage storageKey : Act F B (Except (Option SourceKey) α)).AllOps
      fun o => o.processes = true :=
  (loads_settle ..).mono fun _ => processes_of_loads

omit [PyFloat F] in
theorem processes_solveRun (delivered : Option Nat) (snapshot : SimulationModel)
    (keyInput : SimulationKeyInput F) (raw : SimulationRawData F) :
    (solveRun id delivered snapshot keyInput raw : Act F B _).AllOps
      fun o => o.processes = true := by
  refine .tryCatch (.bind (.tryCatch (.perform rfl) fun e => ?_) fun _ => trivial) fun e => ?_
  · cases e <;> trivial
  · cases e with
    | solverCrash text => exact (loads_afterSolverCrash ..).mono fun _ => processes_of_loads
    | cancelled => trivial
    | _ => exact processes_settle ..

omit [PyFloat F] in
theorem processes_persistRun (solved : KeySimResult F × Nat) :
    (persistRun id solved : Act F B Unit).AllOps fun o => o.processes = true :=
  .ensuring (.tryCatch ((records_saveSuccess ..).mono fun _ h =>
    processes_of_loads (loads_of_records h)) fun _ => trivial) (.perform rfl)

theorem processes_runKey (delivered : Option Nat) (snapshot : SimulationModel)
    (key : AllocationKeyModel F) :
    (runKey lib id delivered snapshot key).AllOps fun o => o.processes = true := by
  refine .bind ((loads_loadSource ..).mono fun _ => processes_of_loads) fun loaded => ?_
  cases loaded with
  | error terminal => trivial
  | ok raw =>
      simp only
      split
      · exact .bind (processes_saveFailure ..) fun _ => trivial
      · refine .bind (processes_solveRun ..) fun solved => ?_
        cases solved with
        | error terminal => trivial
        | ok solved => exact .bind (processes_persistRun ..) fun _ => trivial

theorem processes_process (delivered : Option Nat) :
    (process lib id delivered).AllOps fun o => o.processes = true := by
  refine .bind (.ensuring (.perform rfl) (.perform rfl)) fun snapshot => ?_
  cases snapshot with
  | none => trivial
  | some snapshot =>
      by_cases hstatus : snapshot.status = .pending
      · simp only [hstatus, ne_eq, not_true_eq_false, if_false]
        split
        · exact .bind (processes_saveFailure ..) fun _ => trivial
        · refine .bind (.tryCatch (.ensuring (.perform rfl) (.perform rfl)) fun _ => trivial)
            fun key => ?_
          cases key with
          | none => exact .bind (processes_saveFailure ..) fun _ => trivial
          | some key => exact processes_runKey ..
      · simp only [hstatus, ne_eq, not_false_eq_true, if_true]
        trivial

end SimulationKey
