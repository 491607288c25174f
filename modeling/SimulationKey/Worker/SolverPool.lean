import SimulationKey.Backend.Runs
import SimulationKey.Kit.Expand

/-!
# The solver pool

`_SolverPool` (`worker/main.py`) and `_run_simulation` (`worker/dispatcher.py`): a
solve waits for a slot of the semaphore, is submitted to a pool of processes, and
its future is awaited. The pool is replaced by the submission that finds it
broken.

* **the machine** — a process may complete its solve or fail to, or die, which
  breaks its pool and fails every solve it has not completed; the shutdown of the
  worker cancels those no process has taken up (`SolverEvent`);
* **the handler** — its task may be cancelled while it waits, for a slot or for
  its future; a process that has taken the solve up goes on with it.

A future keeps its input, and its outcome is one that a solve of that input can
have (`Outcome`).
-/

namespace SimulationKey

open Kit Kit.Prog

variable {F B L : Type}

/-! ## `ProcessPoolExecutor` -/

/-- `BrokenProcessPool`, as a submission raises it. -/
def childTerminated : Exn :=
  .brokenExecutor
    "A child process terminated abruptly, the process pool is not usable anymore"

/-- `BrokenProcessPool`, as a future of the pool has it. -/
def poolTerminated : Exn :=
  .brokenExecutor ("A process in the process pool was terminated abruptly while the future " ++
    "was running or pending.")

/-- The `RuntimeError` of a submission to a pool that was shut down. -/
def afterShutdown : Exn := .other "cannot schedule new futures after shutdown"

/-- A pool of processes: whether it is broken or shut down, and the futures it has
not completed. -/
structure ProcessPool where
  broken : Bool
  shut : Bool
  pending : List Nat

namespace ProcessPool

def fresh : ProcessPool := { broken := false, shut := false, pending := [] }

def submit (pool : ProcessPool) (future : Nat) : Except Exn ProcessPool :=
  if pool.broken then .error childTerminated
  else if pool.shut then .error afterShutdown
  else .ok { pool with pending := pool.pending ++ [future] }

/-- It has completed the futures of `which`. -/
def complete (pool : ProcessPool) (which : Nat → Bool) : ProcessPool :=
  { pool with pending := pool.pending.filter fun future => !which future }

end ProcessPool

/-! ## `_SolverPool` -/

/-- The pool in use, and those it replaced. -/
structure SolverPool where
  pool : ProcessPool
  replaced : List ProcessPool

/-- `submit`: a broken pool is replaced, once. -/
def SolverPool.submit (s : SolverPool) (future : Nat) : Except Exn Unit × SolverPool :=
  match s.pool.submit future with
  | .ok pool => (.ok (), { s with pool := pool })
  | .error (.brokenExecutor _) =>
    let s : SolverPool := { pool := .fresh, replaced := s.pool :: s.replaced }
    match s.pool.submit future with
    | .ok pool => (.ok (), { s with pool := pool })
    | .error e => (.error e, s)
  | .error e => (.error e, s)

/-! ## Futures -/

section Solver

variable [PyFloat F]

/-- What the solve of an input can end with. -/
def Possible (key : SimulationKeyInput F) (raw : SimulationRawData F) :
    Except Exn (KeySimResult F) → Prop
  | .ok result => runSimulation key raw.C raw.VA raw.consumerNames = .ok result
  | .error (.simulationInput e) => runSimulation key raw.C raw.VA raw.consumerNames = .error e
  | .error (.other _) | .error (.brokenExecutor _) | .error .cancelled => True
  | .error _ => False

/-- `_run_simulation_subprocess`, when no process dies of it: its result, or its
own exception, or the `fault` of its process (no memory left, a full disk). -/
def solveOutcome (key : SimulationKeyInput F) (raw : SimulationRawData F) (fault : Option String) :
    Except Exn (KeySimResult F) :=
  match fault with
  | some text => .error (.other text)
  | none => (runSimulation key raw.C raw.VA raw.consumerNames).mapError .simulationInput

theorem possible_solveOutcome (key : SimulationKeyInput F) (raw : SimulationRawData F)
    (fault : Option String) : Possible key raw (solveOutcome key raw fault) := by
  cases fault with
  | some text => trivial
  | none =>
      unfold solveOutcome
      cases hrun : runSimulation key raw.C raw.VA raw.consumerNames with
      | ok result => exact hrun
      | error e => exact hrun

/-- An outcome of an input. -/
abbrev Outcome (key : SimulationKeyInput F) (raw : SimulationRawData F) : Type :=
  { r : Except Exn (KeySimResult F) // Possible key raw r }

/-- A solve that `task` submitted, whether the task still waits for it, and its
outcome once it is completed. -/
structure SolveFuture (F : Type) [PyFloat F] where
  task : Nat
  key : SimulationKeyInput F
  raw : SimulationRawData F
  awaited : Bool
  outcome : Option (Outcome key raw)

/-- The first outcome stays. -/
def SolveFuture.complete (future : SolveFuture F)
    (outcome : (key : SimulationKeyInput F) → (raw : SimulationRawData F) → Outcome key raw) :
    SolveFuture F :=
  { future with outcome := future.outcome <|> some (outcome future.key future.raw) }

def SolveFuture.answer (future : SolveFuture F) : Option (Except Exn (KeySimResult F)) :=
  future.outcome.map (·.1)

theorem SolveFuture.answer_complete {future : SolveFuture F} {r : Except Exn (KeySimResult F)}
    (h : future.answer = some r)
    (outcome : (key : SimulationKeyInput F) → (raw : SimulationRawData F) → Outcome key raw) :
    (future.complete outcome).answer = some r := by
  obtain ⟨a, ha, rfl⟩ := Option.map_eq_some_iff.mp h
  simp [answer, complete, ha]

theorem SolveFuture.answer_complete_of_none {future : SolveFuture F} (h : future.answer = none)
    (outcome : (key : SimulationKeyInput F) → (raw : SimulationRawData F) → Outcome key raw) :
    (future.complete outcome).answer = some (outcome future.key future.raw).1 := by
  simp [answer, complete, Option.map_eq_none_iff.mp h]

theorem SolveFuture.complete_answered (future : SolveFuture F)
    (outcome : (key : SimulationKeyInput F) → (raw : SimulationRawData F) → Outcome key raw) :
    (future.complete outcome).answer ≠ none := by
  cases h : future.answer with
  | none => simp [answer_complete_of_none h]
  | some r => simp [answer_complete h]

/-- The semaphore and the pool. Futures are numbered as they are submitted;
`holders` records which tasks have a slot. -/
structure Solver (F : Type) [PyFloat F] where
  value : Nat
  holders : List Nat
  pool : SolverPool
  futures : List (SolveFuture F)

/-- `_solver_pool_size`. -/
def solverPoolSize (availableCpus : Nat) : Nat := max 1 (availableCpus - 1)

namespace Solver

/-- As `main` builds them. -/
def start (poolSize : Nat) : Solver F :=
  { value := poolSize
    holders := []
    pool := { pool := .fresh, replaced := [] }
    futures := [] }

variable (s : Solver F)

/-- `loop.run_in_executor`, up to the future. -/
def submit (t : Nat) (key : SimulationKeyInput F) (raw : SimulationRawData F) :
    Except Exn Nat × Solver F :=
  match s.pool.submit s.futures.length with
  | (.ok (), pool) =>
    (.ok s.futures.length,
      { s with
        pool := pool
        futures := s.futures ++
          [{ task := t, key := key, raw := raw, awaited := true, outcome := none }] })
  | (.error e, pool) => (.error e, { s with pool := pool })

/-- The pool in use completes those of its futures that are of `which`. -/
def complete (which : Nat → Bool)
    (outcome : (key : SimulationKeyInput F) → (raw : SimulationRawData F) → Outcome key raw) :
    Solver F :=
  { s with
    pool := { s.pool with pool := s.pool.pool.complete which }
    futures := s.futures.mapIdx fun i future =>
      if i ∈ s.pool.pool.pending ∧ which i = true then future.complete outcome else future }

/-- A process completes its solve. -/
def finish (future : Nat) (fault : Option String) : Solver F :=
  s.complete (· = future) fun key raw =>
    ⟨solveOutcome key raw fault, possible_solveOutcome key raw fault⟩

/-- A process dies: its pool is broken, and every solve it has not completed fails. -/
def terminate : Solver F :=
  let s := s.complete (fun _ => true) fun _ _ => ⟨.error poolTerminated, trivial⟩
  { s with pool := { s.pool with pool := { s.pool.pool with broken := true } } }

/-- A solve that no process has taken up is cancelled. -/
def cancel (which : Nat → Bool) : Solver F :=
  s.complete which fun _ _ => ⟨.error .cancelled, trivial⟩

/-- The task no longer waits for a solve that a process has taken up. -/
def abandon (future : Nat) : Solver F :=
  { s with futures := s.futures.modify future fun x => { x with awaited := false } }

/-- `shutdown(wait=False, cancel_futures=True)`. -/
def shutdown (queued : Nat → Bool) : Solver F :=
  let s := s.cancel queued
  { s with pool := { s.pool with pool := { s.pool.pool with shut := true } } }

/-- What a future has been completed with. -/
def outcomeOf (future : Nat) : Option (Except Exn (KeySimResult F)) :=
  s.futures[future]?.bind SolveFuture.answer

end Solver

/-- What happens to the pool from outside the tasks. -/
inductive SolverEvent where
  | finishes (future : Nat) (fault : Option String)
  | dies
  | shutsDown (queued : Nat → Bool)

def SolverEvent.effect (s : Solver F) : SolverEvent → Solver F
  | finishes future fault => s.finish future fault
  | dies => s.terminate
  | shutsDown queued => s.shutdown queued

end Solver

/-! ## The worker's operations -/

inductive WorkerOp (F B : Type) where
  | other (o : Op F B)
  | acquire
  | submit (key : SimulationKeyInput F) (raw : SimulationRawData F)
  | result (future : Nat)
  | release

@[reducible] def WorkerOp.Resp : WorkerOp F B → Type
  | other o => o.Resp
  | submit .. => Nat
  | result _ => KeySimResult F × Nat
  | acquire | release => Unit

abbrev WorkerAct (F B α : Type) : Type := Prog (WorkerOp F B) WorkerOp.Resp Exn α

abbrev inWorker (o : WorkerOp F B) : WorkerAct F B o.Resp := Prog.perform o

/-- `async with semaphore: return await loop.run_in_executor(…)`. -/
def solveInPool (key : SimulationKeyInput F) (raw : SimulationRawData F) :
    WorkerAct F B (KeySimResult F × Nat) := do
  inWorker .acquire
  (do
    let future ← inWorker (.submit key raw)
    inWorker (.result future)
    : WorkerAct F B (KeySimResult F × Nat)).ensuring (inWorker .release)

/-- What carries out an operation of the service. -/
def carryOut : (o : Op F B) → WorkerAct F B o.Resp
  | .runSimulation key raw => solveInPool key raw
  | o => inWorker (.other o)

section Worker

variable [PyFloat F]

structure Worker (F B : Type) [PyFloat F] where
  service : World F B
  solver : Solver F

/-- A result that a task receives; its file is the task's from then on. -/
def Worker.receive (w : Worker F B) (result : KeySimResult F) :
    Except Exn (KeySimResult F × Nat) × Worker F B :=
  (.ok (withoutSeries result, w.service.files.next),
    { w with
      service :=
        { w.service with
          files :=
            { series := Function.update w.service.files.series w.service.files.next (some result)
              next := w.service.files.next + 1 } } })

def workerExec (choice : Choice) (t : Nat) :
    (o : WorkerOp F B) → Worker F B → Option (Except Exn o.Resp × Worker F B)
  | .other o, w => (exec choice t o w.service).map fun x => (x.1, { w with service := x.2 })
  | .acquire, w =>
    match choice with
    | .ok =>
      if w.solver.value = 0 then none
      else
        some (.ok (),
          { w with
            solver :=
              { w.solver with
                value := w.solver.value - 1
                holders := t :: w.solver.holders } })
    | .fail .cancelled => some (.error .cancelled, w)
    | _ => none
  | .submit key raw, w =>
    match choice with
    | .ok =>
      let x := w.solver.submit t key raw
      some (x.1, { w with solver := x.2 })
    | .fail (.other text) => some (.error (.other text), w)
    | _ => none
  | .result future, w =>
    match choice with
    | .ok =>
      match w.solver.outcomeOf future with
      | some (.ok result) => some (w.receive result)
      | some (.error e) => some (.error e, w)
      | none => none
    | .fail .cancelled => some (.error .cancelled, { w with solver := w.solver.abandon future })
    | .lost .cancelled =>
      some (.error .cancelled, { w with solver := w.solver.cancel (· = future) })
    | _ => none
  | .release, w =>
    match choice with
    | .ok =>
      some (.ok (),
        { w with
          solver :=
            { w.solver with
              value := w.solver.value + 1
              holders := w.solver.holders.erase t } })
    | _ => none

variable (lib : Libraries F B L) (simulationId : Nat)

/-- The service, its solves carried out by the pool. -/
def worker : System (WorkerOp F B) WorkerOp.Resp Exn where
  World := Worker F B
  Choice := Choice
  Entry := Entry F B
  Event := CrmState F ⊕ SolverEvent
  exec := workerExec
  enter := fun e w => (enter lib simulationId e w.service).map fun x =>
    ({ w with service := x.1 }, x.2.expand carryOut)
  abort := fun t w => { w with service := w.service.abort t }
  event := fun e w =>
    match e with
    | .inl crm => { w with service := { w.service with crm := crm } }
    | .inr e => { w with solver := e.effect w.solver }

end Worker

end SimulationKey
